import Mathlib.Algebra.Order.Ring.Nat
import Mathlib.Tactic.Ring
import Trapline.Binary32.Shortest

/-!
# Rounding decimal numbers

The magnitude nearest to a decimal number depends on the number alone, not on how it is given: a
quotient may be expanded, zeros may be put behind the digits, and the short cuts for very large and
very small exponents change nothing. A finite magnitude, counted in units, rounds to itself. So the
exact decimal expansion of a magnitude reads back, and with it the fewest digits that do.

Main statements:
* `Binary32.nearest_of_mul_eq`: equal quotients round alike.
* `Binary32.nearestDecimal_eq`: the short cuts agree with rounding the exact number.
* `Binary32.nearestDecimal_padded`: zeros behind the digits do not matter.
* `Binary32.nearest_units`, `Binary32.nearestDecimal_shortest`: finite magnitudes read back.
-/

namespace Trapline

/-- The same number with zeros put behind its digits. -/
def Decimal.padded (d : Decimal) (zeros : Nat) : Decimal where
  digits := d.digits * 10 ^ zeros
  exponent := d.exponent - zeros

namespace Binary32

section Quotients

/-! A quotient of naturals, and the same quotient expanded. -/

theorem roundQuotient_mul_right
    (num den : Nat)
    {k : Nat}
    (hk : 0 < k) :
    roundQuotient (num * k) (den * k) = roundQuotient num den := by
  have hbelow : 2 * (num % den * k) < den * k ↔ 2 * (num % den) < den := by
    rw [← Nat.mul_assoc, Nat.mul_lt_mul_right hk]
  have habove : den * k < 2 * (num % den * k) ↔ den < 2 * (num % den) := by
    rw [← Nat.mul_assoc, Nat.mul_lt_mul_right hk]
  simp only [roundQuotient, Nat.mul_div_mul_right _ _ hk, Nat.mul_mod_mul_right, hbelow, habove]

theorem roundQuotient_one
    (n : Nat) :
    roundQuotient n 1 = n := by
  simp [roundQuotient, Nat.mod_one]

theorem nearest_mul_right
    (num den : Nat)
    {k : Nat}
    (hk : 0 < k) :
    nearest (num * k) (den * k) = nearest num den := by
  have hshift (shift : Nat) :
      roundQuotient (num * k) (den * k * Nat.pow 2 shift) =
        roundQuotient num (den * Nat.pow 2 shift) := by
    rw [Nat.mul_right_comm, roundQuotient_mul_right _ _ hk]
  simp only [nearest, Nat.mul_div_mul_right _ _ hk, hshift]

/-- Equal quotients round alike. -/
theorem nearest_of_mul_eq
    {num den num' den' : Nat}
    (hden : 0 < den)
    (hden' : 0 < den')
    (h : num * den' = num' * den) :
    nearest num den = nearest num' den' := by
  calc nearest num den
      = nearest (num * den') (den * den') := (nearest_mul_right num den hden').symm
    _ = nearest (num' * den) (den' * den) := by rw [h, Nat.mul_comm den]
    _ = nearest num' den' := nearest_mul_right num' den' hden

/-- What is less than half a unit rounds to zero. -/
theorem nearest_of_lt_half
    {num den : Nat}
    (h : 2 * num < den) :
    nearest num den = 0 := by
  have hdiv : num / den = 0 := Nat.div_eq_of_lt (by omega)
  have hmod : num % den = num := Nat.mod_eq_of_lt (by omega)
  simp [nearest, roundQuotient, hdiv, hmod, h]

/-- What is far above the finite magnitudes rounds to infinity. -/
theorem nearest_of_two_pow_le
    {n k : Nat}
    (hk : 278 ≤ k)
    (h : 2 ^ k ≤ n) :
    nearest n 1 = infinityMagnitude := by
  have hn : n ≠ 0 := Nat.ne_of_gt (Nat.lt_of_lt_of_le (Nat.two_pow_pos k) h)
  have hlog : k ≤ Nat.log2 n := (Nat.le_log2 hn).2 h
  have hshift : infinityMagnitude ≤ (Nat.log2 n - 23) * binade :=
    Nat.mul_le_mul_right binade (by omega)
  rw [nearest, Nat.div_one]
  exact Nat.min_eq_right (Nat.le_trans hshift (Nat.le_add_right ..))

end Quotients

section Magnitudes

theorem nearest_units_of_lt
    {m : Nat}
    (h : m < binade) :
    nearest m 1 = m := by
  have hlog : Nat.log2 m - 23 = 0 := by
    by_cases hm : m = 0
    · rw [hm]
      rfl
    · have := (Nat.log2_lt hm).2 (show m < 2 ^ 23 from h)
      omega
  have hle : m ≤ infinityMagnitude := by
    simp only [infinityMagnitude]
    omega
  simp [nearest, hlog, roundQuotient_one, hle]

/-- A significand of 24 binary digits keeps them all. -/
theorem nearest_shifted
    {significand shift : Nat}
    (hlow : binade ≤ significand)
    (hhigh : significand < 2 * binade) :
    nearest (significand * 2 ^ shift) 1 =
      min (shift * binade + significand) infinityMagnitude := by
  have hpos : 0 < 2 ^ shift := Nat.two_pow_pos shift
  have hlog : Nat.log2 (significand * 2 ^ shift) = 23 + shift := by
    have hbinade : binade = 2 ^ 23 := rfl
    rw [Nat.log2_eq_iff (Nat.mul_ne_zero (by omega) (by omega)), Nat.pow_add, Nat.add_right_comm,
      Nat.pow_add _ (23 + 1)]
    constructor
    · exact Nat.mul_le_mul_right _ (by omega)
    · exact Nat.mul_lt_mul_of_pos_right (by omega) hpos
  have hround : roundQuotient (significand * 2 ^ shift) (1 * Nat.pow 2 shift) = significand := by
    rw [Nat.pow_eq, roundQuotient_mul_right _ _ hpos, roundQuotient_one]
  simp only [nearest, Nat.div_one, hlog, Nat.add_sub_cancel_left, hround]

/-- A finite magnitude rounds to itself. -/
theorem nearest_units
    {m : Nat}
    (h : m < infinityMagnitude) :
    nearest (units m) 1 = m := by
  rw [units]
  split
  · rename_i hsmall
    exact nearest_units_of_lt hsmall
  · rename_i hlarge
    have hbinade : 0 < binade := by decide
    have hmod := Nat.mod_lt m hbinade
    have hdiv : 1 ≤ m / binade := (Nat.one_le_div_iff hbinade).2 (by omega)
    have hsum : (m / binade - 1) * binade + (binade + m % binade) = m := by
      have := Nat.div_add_mod' m binade
      rw [Nat.sub_mul]
      have hle : 1 * binade ≤ m / binade * binade := Nat.mul_le_mul_right binade hdiv
      omega
    rw [Nat.pow_eq, nearest_shifted (by omega) (by omega), hsum]
    omega

end Magnitudes

section Decimals

/-- Rounding the exact number, with one formula for both signs of the exponent. -/
theorem nearestExact_eq
    (d : Decimal) :
    nearestExact d =
      nearest (d.digits * 10 ^ d.exponent.toNat * 2 ^ 149) (10 ^ (-d.exponent).toNat) := by
  rw [nearestExact]
  split
  · rename_i n hn
    have hneg : (-d.exponent).toNat = 0 := by
      rw [hn]
      simp
    rw [hneg, hn]
    rfl
  · rename_i n hn
    have hneg : (-d.exponent).toNat = n + 1 := by
      rw [hn]
      rfl
    rw [hneg, hn]
    simp

/-- Rounding the exact number, when it is given with a number of decimal places. -/
theorem nearestExact_of_places
    {d : Decimal}
    {places : Nat}
    (h : d.exponent = -(places : Int)) :
    nearestExact d = nearest (d.digits * 2 ^ 149) (10 ^ places) := by
  have hpositive : d.exponent.toNat = 0 := by omega
  have hnegative : (-d.exponent).toNat = places := by omega
  rw [nearestExact_eq, hpositive, hnegative, Nat.pow_zero, Nat.mul_one]

/-- The short cuts for large and small exponents agree with rounding the exact number. -/
theorem nearestDecimal_eq
    (d : Decimal) :
    nearestDecimal d = nearestExact d := by
  rw [nearestDecimal, nearestExact_eq]
  split
  · rename_i hzero
    rw [hzero, Nat.zero_mul, Nat.zero_mul]
    exact (nearest_of_lt_half (Nat.pow_pos (by decide))).symm
  · rename_i hdigits
    split
    · rename_i hlarge
      have hneg : (-d.exponent).toNat = 0 := by omega
      have hpow : 2 ^ 132 ≤ 10 ^ d.exponent.toNat :=
        calc 2 ^ 132
            ≤ 10 ^ 40 := by decide
          _ ≤ 10 ^ d.exponent.toNat := Nat.pow_le_pow_right (by decide) (by omega)
      rw [hneg, Nat.pow_zero]
      refine (nearest_of_two_pow_le (by decide : 278 ≤ 132 + 149) ?_).symm
      calc 2 ^ (132 + 149)
          = 1 * 2 ^ 132 * 2 ^ 149 := by rw [Nat.pow_add, Nat.one_mul]
        _ ≤ d.digits * 10 ^ d.exponent.toNat * 2 ^ 149 :=
            Nat.mul_le_mul_right _ (Nat.mul_le_mul (by omega) hpow)
    · split
      · rename_i hsmall
        have hpos : d.exponent.toNat = 0 := by omega
        rw [hpos, Nat.pow_zero, Nat.mul_one]
        refine (nearest_of_lt_half ?_).symm
        -- ten is more than eight
        calc 2 * (d.digits * 2 ^ 149)
            < 2 * (2 ^ (d.digits.log2 + 1) * 2 ^ 149) := by
              have hlog := @Nat.lt_log2_self d.digits
              have := Nat.mul_lt_mul_of_pos_right hlog (Nat.two_pow_pos 149)
              omega
          _ = 2 ^ (d.digits.log2 + 151) := by ring
          _ ≤ 2 ^ (3 * (-d.exponent).toNat) := Nat.pow_le_pow_right (by decide) (by omega)
          _ = 8 ^ (-d.exponent).toNat := by rw [Nat.pow_mul]
          _ ≤ 10 ^ (-d.exponent).toNat := Nat.pow_le_pow_left (by decide) _
      · rfl

/-- Zeros behind the digits do not matter. -/
theorem nearestDecimal_padded
    (d : Decimal)
    (zeros : Nat) :
    nearestDecimal (d.padded zeros) = nearestDecimal d := by
  rw [nearestDecimal_eq, nearestDecimal_eq, nearestExact_eq, nearestExact_eq]
  refine nearest_of_mul_eq (Nat.pow_pos (by decide)) (Nat.pow_pos (by decide)) ?_
  have hexponent :
      zeros + (d.exponent - zeros).toNat + (-d.exponent).toNat =
        d.exponent.toNat + (-(d.exponent - zeros)).toNat := by
    omega
  have hpow :
      10 ^ zeros * 10 ^ (d.exponent - zeros).toNat * 10 ^ (-d.exponent).toNat =
        10 ^ d.exponent.toNat * 10 ^ (-(d.exponent - zeros)).toNat := by
    rw [← Nat.pow_add, ← Nat.pow_add, ← Nat.pow_add, hexponent]
  calc d.digits * 10 ^ zeros * 10 ^ (d.exponent - zeros).toNat * 2 ^ 149 * 10 ^ (-d.exponent).toNat
      = d.digits * 2 ^ 149 *
          (10 ^ zeros * 10 ^ (d.exponent - zeros).toNat * 10 ^ (-d.exponent).toNat) := by ring
    _ = d.digits * 10 ^ d.exponent.toNat * 2 ^ 149 * 10 ^ (-(d.exponent - zeros)).toNat := by
        rw [hpow]
        ring

end Decimals

section Shortest

variable {m : Nat}

/-- A whole number of units with as many decimal places as binary ones. -/
theorem nearest_places
    (n places : Nat) :
    nearest (n * Nat.pow 5 places * 2 ^ places) (10 ^ places) = nearest n 1 := by
  have hten : Nat.pow 5 places * 2 ^ places = 10 ^ places := (Nat.mul_pow 5 2 places).symm
  calc nearest (n * Nat.pow 5 places * 2 ^ places) (10 ^ places)
      = nearest (n * 10 ^ places) (1 * 10 ^ places) := by rw [Nat.mul_assoc, hten, Nat.one_mul]
    _ = nearest n 1 := nearest_mul_right n 1 (Nat.pow_pos (by decide))

/-- The exact expansion of a finite magnitude reads back. -/
theorem nearestDecimal_expansion
    (h : m < infinityMagnitude) :
    nearestDecimal (onGrid (expansion m) 0) = m := by
  have hexponent : (onGrid (expansion m) 0).exponent = -(149 : Nat) := rfl
  have hdigits : (onGrid (expansion m) 0).digits = expansion m := rfl
  rw [nearestDecimal_eq, nearestExact_of_places hexponent, hdigits, expansion, nearest_places,
    nearest_units h]

theorem test_of_choose?
    {test : Decimal → Bool}
    {belowIsNearer : Bool}
    {below above d : Decimal}
    (h : choose? test belowIsNearer below above = some d) :
    test d = true := by
  unfold choose? at h
  cases hbelow : test below <;> cases habove : test above <;> cases belowIsNearer <;> simp_all

theorem nearestDecimal_neighbour?
    {dropped : Nat}
    {d : Decimal}
    (h : neighbour? m dropped = some d) :
    nearestDecimal d = m :=
  beq_iff_eq.1 (test_of_choose? h)

theorem nearestDecimal_shortestFrom
    (h : m < infinityMagnitude)
    (dropped : Nat) :
    nearestDecimal (shortestFrom m dropped) = m := by
  induction dropped with
  | zero =>
      exact nearestDecimal_expansion h
  | succ dropped ih =>
      rw [shortestFrom]
      cases hneighbour : neighbour? m (dropped + 1) with
      | some d => exact nearestDecimal_neighbour? hneighbour
      | none => exact ih

/-- The digits that are chosen for a finite magnitude read back. -/
theorem nearestDecimal_shortest
    (h : m < infinityMagnitude) :
    nearestDecimal (shortest m) = m :=
  nearestDecimal_shortestFrom h _

end Shortest

end Binary32
end Trapline
