import Flowgraph.Binary64.Rounding
import Flowgraph.Binary64.Shortest
import Mathlib.Tactic.Linarith
import Mathlib.Tactic.Ring

/-!
# The nearest number

A number is the nearest one to every real of its `neighbourhood` (`ofRatio_of_holds`), and the
search for a short decimal ends with one that lies there (`near_shortest`), so the digits of a
number denote it (`nearest?_of_near`).
-/

set_option autoImplicit false

namespace Flowgraph

/-! ### Digits and powers -/

namespace Decimal

theorem lt_pow_digitCount (n : Nat) : n < Nat.pow 10 (digitCount n) := by
  induction n using Nat.strongRecOn with
  | ind n ih =>
    rw [digitCount]
    split
    case isTrue h => rw [h]; decide
    case isFalse h =>
      have hlt := ih (n / 10) (Nat.div_lt_self (Nat.pos_of_ne_zero h) (by decide))
      have hpow : Nat.pow 10 (digitCount (n / 10) + 1) =
          Nat.pow 10 (digitCount (n / 10)) * 10 := rfl
      omega

theorem pow_digitCount_le {n : Nat} (h : n ≠ 0) :
    Nat.pow 10 (digitCount n) ≤ 10 * n := by
  induction n using Nat.strongRecOn with
  | ind n ih =>
    rw [digitCount, dif_neg h]
    have hpow : Nat.pow 10 (digitCount (n / 10) + 1) = Nat.pow 10 (digitCount (n / 10)) * 10 := rfl
    by_cases hsmall : n / 10 = 0
    · rw [hpow, hsmall]
      have hzero : Nat.pow 10 (digitCount 0) = 1 := by rw [digitCount]; rfl
      omega
    · have hle := ih (n / 10) (Nat.div_lt_self (Nat.pos_of_ne_zero h) (by decide)) hsmall
      omega

end Decimal

namespace Binary64

/-! ### Rounding -/

/-- The quotient rounds to `q` if it is no further than a half from it, and less if `q` is odd. -/
theorem roundDiv_eq {num den q : Nat} (hden : 0 < den) (hlow : 2 * (q * den) ≤ 2 * num + den)
    (hhigh : 2 * num ≤ 2 * (q * den) + den)
    (hodd : q % 2 = 1 → 2 * (q * den) < 2 * num + den ∧ 2 * num < 2 * (q * den) + den) :
    roundDiv num den = q := by
  have hdiv := Nat.div_add_mod num den
  have hmod := Nat.mod_lt num hden
  rw [Nat.mul_comm] at hdiv
  unfold roundDiv
  generalize num / den = quotient at *
  generalize num % den = rest at *
  dsimp only
  have hge : quotient ≤ q := by
    by_contra hlt
    have hmul : (q + 1) * den ≤ quotient * den := Nat.mul_le_mul_right den (by omega)
    rw [Nat.succ_mul] at hmul
    omega
  have hle : q ≤ quotient + 1 := by
    by_contra hlt
    have hmul : (quotient + 2) * den ≤ q * den := Nat.mul_le_mul_right den (by omega)
    rw [Nat.add_mul] at hmul
    omega
  obtain rfl | rfl : q = quotient ∨ q = quotient + 1 := by omega
  · split
    · rfl
    · split <;> omega
  · have hmul : (quotient + 1) * den = quotient * den + den := Nat.succ_mul ..
    split
    · omega
    · split <;> omega

/-! ### Magnitudes -/

theorem significand_lt (x : Binary64) : x.significand < 2 * fractionSize := by
  have hmod := Nat.mod_lt x.magnitude (show 0 < fractionSize by decide)
  unfold significand
  split <;> omega

/-- A magnitude is made of scale and significand. -/
theorem magnitude_eq (x : Binary64) : x.scale * fractionSize + x.significand = x.magnitude := by
  have hdiv := Nat.div_add_mod x.magnitude fractionSize
  unfold scale significand
  split
  case isTrue h => rw [Nat.div_eq_of_lt h]; omega
  case isFalse h =>
    have hpos : 0 < x.magnitude / fractionSize := Nat.div_pos (Nat.not_lt.1 h) (by decide)
    obtain ⟨exponent, hexponent⟩ := Nat.exists_eq_add_one.2 hpos
    rw [hexponent] at hdiv ⊢
    rw [Nat.mul_succ, Nat.mul_comm] at hdiv
    rw [Nat.add_sub_cancel]
    omega

/-- Only the numbers of the least scale have less than 53 binary digits. -/
theorem le_significand {x : Binary64} (h : 0 < x.scale) : fractionSize ≤ x.significand := by
  unfold scale at h
  unfold significand
  split
  case isTrue hlt => rw [Nat.div_eq_of_lt hlt] at h; omega
  case isFalse => omega

theorem scale_lt (x : Binary64) : x.scale < 2046 := by
  have hlt := x.finite
  have hdiv : x.magnitude / fractionSize < 2047 := (Nat.div_lt_iff_lt_mul (by decide)).2 hlt
  unfold scale
  omega

theorem significand_pos {x : Binary64} (h : x.magnitude ≠ 0) : 0 < x.significand := by
  have heq := x.magnitude_eq
  by_cases hscale : 0 < x.scale
  · have hle := le_significand hscale
    have hsize : 0 < fractionSize := by decide
    omega
  · rw [Nat.eq_zero_of_not_pos hscale, Nat.zero_mul] at heq
    omega

/-- How far a number of units has to be shifted to have 53 binary digits. -/
theorem shift_eq {n k : Nat} (hlow : k ≠ 0 → Nat.pow 2 (k + 52) ≤ n)
    (hhigh : n < Nat.pow 2 (k + 53)) : Nat.log2 n - 52 = k := by
  by_cases hzero : n = 0
  · have hk : k = 0 := by
      by_contra hk
      have hpos : 0 < Nat.pow 2 (k + 52) := Nat.pow_pos (by decide)
      have := hlow hk
      omega
    rw [hzero, hk]
    rfl
  · have hlt : n.log2 < k + 53 := (Nat.log2_lt hzero).2 hhigh
    by_cases hk : k = 0
    · omega
    · have hle : k + 52 ≤ n.log2 := (Nat.le_log2 hzero).2 (hlow hk)
      omega

/-- A ratio between two powers of two is rounded to a multiple of the scale of its numbers. -/
theorem ofRatio_eq_some {negative : Bool} {num den scaled k q : Nat} (hden : 0 < den)
    (hscaled : num * unitsPerOne = scaled) (hfinite : k * fractionSize + q < magnitudeLimit)
    (hlow : k ≠ 0 → Nat.pow 2 (k + 52) * den ≤ scaled)
    (hhigh : scaled < Nat.pow 2 (k + 53) * den)
    (hround : roundDiv scaled (den * Nat.pow 2 k) = q) :
    ofRatio negative num den = some ⟨negative, k * fractionSize + q, hfinite⟩ := by
  have hshift : Nat.log2 (scaled / den) - 52 = k :=
    shift_eq (fun hk => (Nat.le_div_iff_mul_le hden).2 (hlow hk))
      ((Nat.div_lt_iff_lt_mul hden).2 hhigh)
  unfold ofRatio
  dsimp only
  rw [hscaled, hshift, hround]
  exact dif_pos hfinite

theorem Neighbourhood.bounds {n : Neighbourhood} {num den : Nat} (h : n.holds num den = true) :
    n.low * den ≤ num ∧ num ≤ n.high * den ∧
      (n.closed = false → n.low * den < num ∧ num < n.high * den) := by
  unfold holds at h
  split at h
  case isTrue hclosed =>
    simp only [Bool.and_eq_true, decide_eq_true_eq] at h
    exact ⟨h.1, h.2, fun hopen => absurd (hclosed.symm.trans hopen) Bool.true_eq_false_eq_False⟩
  case isFalse =>
    simp only [Bool.and_eq_true, decide_eq_true_eq] at h
    exact ⟨Nat.le_of_lt h.1, Nat.le_of_lt h.2, fun _ => h⟩

/-- What lies in the neighbourhood of a number, in terms of the number's scale: at most a half of
it away, and only a quarter of it below a power of two. -/
theorem neighbourhood_bounds {x : Binary64} {scaled den : Nat} (hx : x.magnitude ≠ 0)
    (h : x.neighbourhood.holds (4 * scaled) den = true) :
    let step := den * Nat.pow 2 x.scale
    2 * (x.significand * step) ≤ 2 * scaled + step ∧
      2 * scaled ≤ 2 * (x.significand * step) + step ∧
      (x.significand = fractionSize → 0 < x.scale →
        4 * (x.significand * step) ≤ 4 * scaled + step) ∧
      (x.significand % 2 = 1 → 2 * (x.significand * step) < 2 * scaled + step ∧
        2 * scaled < 2 * (x.significand * step) + step) := by
  intro step
  obtain ⟨hlow, hhigh, hopen⟩ := Neighbourhood.bounds h
  have hpositive := significand_pos hx
  have hunits : x.units * den = x.significand * step := by
    show x.significand * Nat.pow 2 x.scale * den = x.significand * (den * Nat.pow 2 x.scale)
    ring
  have hstep : Nat.pow 2 x.scale * den = step := Nat.mul_comm ..
  have hle : step ≤ x.significand * step := Nat.le_mul_of_pos_left step hpositive
  have hclosed : x.significand % 2 = 1 → x.neighbourhood.closed = false := fun hodd => by
    simp only [neighbourhood, decide_eq_false_iff_not]
    omega
  have hhighest : x.neighbourhood.high * den = 4 * (x.significand * step) + 2 * step := by
    simp only [neighbourhood, Nat.add_mul, Nat.mul_assoc, hunits, hstep]
  have hlowest : x.neighbourhood.low * den = 4 * (x.significand * step) -
      (if x.significand = fractionSize ∧ 0 < x.scale then step else 2 * step) := by
    simp only [neighbourhood, Nat.sub_mul, Nat.mul_assoc, hunits]
    split <;> simp only [Nat.mul_assoc, hstep]
  rw [hlowest] at hlow hopen
  rw [hhighest] at hhigh hopen
  refine ⟨?_, by omega, fun hleast hscale => ?_, fun hodd => ?_⟩
  · split at hlow <;> omega
  · rw [if_pos ⟨hleast, hscale⟩] at hlow
    omega
  · obtain ⟨hlow', hhigh'⟩ := hopen (hclosed hodd)
    split at hlow' <;> omega

theorem pow_scale_mul (scale k den : Nat) :
    Nat.pow 2 (scale + k) * den = Nat.pow 2 k * (den * Nat.pow 2 scale) := by
  rw [show Nat.pow 2 (scale + k) = Nat.pow 2 scale * Nat.pow 2 k from Nat.pow_add ..]
  ring

/-- A ratio just below a power of two has the scale of the number before, and is rounded up. -/
theorem ofRatio_below {negative : Bool} {num den scaled scale : Nat} (hden : 0 < den)
    (hscaled : num * unitsPerOne = scaled)
    (hfinite : (scale + 1) * fractionSize + fractionSize < magnitudeLimit)
    (hlow : 4 * (fractionSize * (den * Nat.pow 2 (scale + 1))) ≤
      4 * scaled + den * Nat.pow 2 (scale + 1))
    (hhigh : scaled < fractionSize * (den * Nat.pow 2 (scale + 1))) :
    ofRatio negative num den =
      some ⟨negative, (scale + 1) * fractionSize + fractionSize, hfinite⟩ := by
  have hnext : scale * fractionSize + 2 * fractionSize =
      (scale + 1) * fractionSize + fractionSize := by
    ring
  have hhalf : den * Nat.pow 2 (scale + 1) = 2 * (den * Nat.pow 2 scale) := by
    rw [show Nat.pow 2 (scale + 1) = Nat.pow 2 scale * 2 from rfl]
    ring
  rw [hhalf] at hlow hhigh
  have hdouble : 2 * fractionSize * (den * Nat.pow 2 scale) =
      fractionSize * (2 * (den * Nat.pow 2 scale)) := by ring
  have hpositive : 0 < den * Nat.pow 2 scale := Nat.mul_pos hden (Nat.pow_pos (by decide))
  have hround : roundDiv scaled (den * Nat.pow 2 scale) = 2 * fractionSize := by
    refine roundDiv_eq hpositive (by omega) (by omega) fun hodd => ?_
    rw [Nat.mul_mod_right] at hodd
    cases hodd
  have hleast : Nat.pow 2 (scale + 52) * den ≤ scaled := by
    have hle : den * Nat.pow 2 scale ≤ fractionSize * (den * Nat.pow 2 scale) :=
      Nat.le_mul_of_pos_left _ (by decide)
    have htwo : fractionSize * (2 * (den * Nat.pow 2 scale)) =
        2 * (fractionSize * (den * Nat.pow 2 scale)) := Nat.mul_left_comm ..
    rw [pow_scale_mul scale 52 den]
    change fractionSize * (den * Nat.pow 2 scale) ≤ scaled
    omega
  have hmost : scaled < Nat.pow 2 (scale + 53) * den := by
    rw [pow_scale_mul scale 53 den]
    change scaled < fractionSize * 2 * (den * Nat.pow 2 scale)
    rw [Nat.mul_comm fractionSize 2, hdouble]
    exact hhigh
  rw [ofRatio_eq_some hden hscaled (lt_of_eq_of_lt hnext hfinite) (fun _ => hleast) hmost hround]
  simp only [hnext]

/-- Any other ratio has the scale of the number that it is rounded to. -/
theorem ofRatio_within {negative : Bool} {num den scaled scale significand : Nat} (hden : 0 < den)
    (hscaled : num * unitsPerOne = scaled)
    (hfinite : scale * fractionSize + significand < magnitudeLimit)
    (hsignificand : significand < 2 * fractionSize)
    (hleast : scale ≠ 0 → fractionSize * (den * Nat.pow 2 scale) ≤ scaled)
    (hhigh : 2 * scaled ≤ 2 * (significand * (den * Nat.pow 2 scale)) + den * Nat.pow 2 scale)
    (hround : roundDiv scaled (den * Nat.pow 2 scale) = significand) :
    ofRatio negative num den = some ⟨negative, scale * fractionSize + significand, hfinite⟩ := by
  have hpositive : 0 < den * Nat.pow 2 scale := Nat.mul_pos hden (Nat.pow_pos (by decide))
  refine ofRatio_eq_some hden hscaled hfinite (fun hscale => ?_) ?_ hround
  · rw [pow_scale_mul scale 52 den]
    exact hleast hscale
  · rw [pow_scale_mul scale 53 den]
    change scaled < fractionSize * 2 * (den * Nat.pow 2 scale)
    have hless : (significand + 1) * (den * Nat.pow 2 scale) ≤
        2 * fractionSize * (den * Nat.pow 2 scale) := Nat.mul_le_mul_right _ hsignificand
    rw [Nat.succ_mul] at hless
    rw [Nat.mul_comm fractionSize 2]
    omega

/-- **A number is the nearest one to every ratio in its neighbourhood.** -/
theorem ofRatio_of_holds {x : Binary64} {num den scaled : Nat} (hden : 0 < den)
    (hscaled : num * unitsPerOne = scaled) (hx : x.magnitude ≠ 0)
    (h : x.neighbourhood.holds (4 * scaled) den = true) :
    ofRatio x.negative num den = some x := by
  have hmagnitude := x.magnitude_eq
  have hsignificand := x.significand_lt
  obtain ⟨hlow, hhigh, hleast, hodd⟩ := neighbourhood_bounds hx h
  have hleading := @le_significand x
  obtain ⟨negative, magnitude, finite⟩ := x
  dsimp only at *
  generalize Binary64.significand ⟨negative, magnitude, finite⟩ = significand at *
  generalize Binary64.scale ⟨negative, magnitude, finite⟩ = scale at *
  obtain rfl := hmagnitude
  have hpositive : 0 < den * Nat.pow 2 scale := Nat.mul_pos hden (Nat.pow_pos (by decide))
  by_cases hbelow : significand = fractionSize ∧ 0 < scale ∧
      scaled < fractionSize * (den * Nat.pow 2 scale)
  · obtain ⟨rfl, hscale, hlt⟩ := hbelow
    have hquarter := hleast rfl hscale
    obtain ⟨scale, rfl⟩ := Nat.exists_eq_add_one.2 hscale
    exact ofRatio_below hden hscaled finite hquarter hlt
  · refine ofRatio_within hden hscaled finite hsignificand (fun hscale => ?_) hhigh
      (roundDiv_eq hpositive hlow hhigh hodd)
    by_cases hequal : significand = fractionSize
    · exact Nat.not_lt.1 fun hlt => hbelow ⟨hequal, Nat.pos_of_ne_zero hscale, hlt⟩
    · have hgreater : (fractionSize + 1) * (den * Nat.pow 2 scale) ≤
          significand * (den * Nat.pow 2 scale) :=
        Nat.mul_le_mul_right _ (by have := hleading (Nat.pos_of_ne_zero hscale); omega)
      rw [Nat.succ_mul] at hgreater
      omega

/-! ### Decimals near a number -/

theorem Neighbourhood.holds_congr {n : Neighbourhood} {num den num' den' : Nat} (hden : 0 < den)
    (hden' : 0 < den') (h : num * den' = num' * den) : n.holds num den = n.holds num' den' := by
  have hle (bound : Nat) : bound * den ≤ num ↔ bound * den' ≤ num' := by
    rw [← Nat.mul_le_mul_right_iff hden', h, Nat.mul_right_comm, Nat.mul_le_mul_right_iff hden]
  have hge (bound : Nat) : num ≤ bound * den ↔ num' ≤ bound * den' := by
    rw [← Nat.mul_le_mul_right_iff hden', h, Nat.mul_right_comm, Nat.mul_le_mul_right_iff hden]
  unfold holds
  simp only [← Nat.not_le, hle, hge]

/-- Whether a decimal lies in the neighbourhood of a number. -/
def Near (x : Binary64) (d : Decimal) : Prop :=
  x.neighbourhood.holds (4 * (d.coefficient * Nat.pow 10 d.exponent.toNat * unitsPerOne))
    (Nat.pow 10 (-d.exponent).toNat) = true

theorem pow_add_ten (a b : Nat) : Nat.pow 10 (a + b) = Nat.pow 10 a * Nat.pow 10 b := Nat.pow_add ..

theorem pow_ten_pos (a : Nat) : 0 < Nat.pow 10 a := Nat.pow_pos (by decide)

/-- Zeros at the end of the coefficient do not change the value of a decimal. -/
theorem near_shift (x : Binary64) (coefficient zeros : Nat) (exponent : Int) :
    x.Near ⟨coefficient * Nat.pow 10 zeros, exponent - zeros⟩ ↔ x.Near ⟨coefficient, exponent⟩ := by
  have hpower : Nat.pow 10 zeros * Nat.pow 10 (exponent - zeros).toNat *
      Nat.pow 10 (-exponent).toNat =
        Nat.pow 10 exponent.toNat * Nat.pow 10 (-(exponent - zeros)).toNat := by
    simp only [← pow_add_ten]
    congr 1
    omega
  unfold Near
  rw [Neighbourhood.holds_congr (pow_ten_pos _) (pow_ten_pos _)]
  dsimp only
  calc 4 * (coefficient * Nat.pow 10 zeros * Nat.pow 10 (exponent - zeros).toNat * unitsPerOne) *
        Nat.pow 10 (-exponent).toNat
    _ = 4 * (coefficient * unitsPerOne) * (Nat.pow 10 zeros * Nat.pow 10 (exponent - zeros).toNat *
        Nat.pow 10 (-exponent).toNat) := by ring
    _ = 4 * (coefficient * Nat.pow 10 exponent.toNat * unitsPerOne) *
        Nat.pow 10 (-(exponent - zeros)).toNat := by rw [hpower]; ring

/-- Powers of two are compared with powers of ten by three binary digits for a decimal one. -/
theorem two_pow_le {a b k : Nat} (h : k ≤ 3 * a + b) :
    Nat.pow 2 k ≤ Nat.pow 10 a * Nat.pow 2 b :=
  calc Nat.pow 2 k
    _ ≤ Nat.pow 2 (3 * a + b) := Nat.pow_le_pow_right (by decide) h
    _ = Nat.pow 2 (3 * a) * Nat.pow 2 b := Nat.pow_add ..
    _ = Nat.pow 8 a * Nat.pow 2 b := congrArg (· * Nat.pow 2 b) (Nat.pow_mul 2 3 a)
    _ ≤ Nat.pow 10 a * Nat.pow 2 b :=
        Nat.mul_le_mul_right _ (Nat.pow_le_pow_left (by decide) a)

/-- The neighbourhood of a number is nowhere near the bounds for exponents, -/
theorem high_lt (x : Binary64) {a b : Nat} (h : 2101 ≤ 3 * a + b) :
    x.neighbourhood.high < Nat.pow 10 a * Nat.pow 2 b := by
  have hunits : x.units < Nat.pow 2 53 * Nat.pow 2 x.scale :=
    Nat.mul_lt_mul_of_pos_right x.significand_lt (Nat.pow_pos (by decide))
  have hexponent : 56 + x.scale ≤ 3 * a + b := by
    have := x.scale_lt
    omega
  calc 4 * x.units + 2 * Nat.pow 2 x.scale
    _ < Nat.pow 2 56 * Nat.pow 2 x.scale := by
        change x.units < 9007199254740992 * Nat.pow 2 x.scale at hunits
        change _ < 72057594037927936 * Nat.pow 2 x.scale
        omega
    _ = Nat.pow 2 (56 + x.scale) := (Nat.pow_add ..).symm
    _ ≤ Nat.pow 10 a * Nat.pow 2 b := two_pow_le hexponent

/-- The number of units in one as a power that is not computed. -/
theorem exists_unitsPerOne : ∃ b, b = 1074 ∧ unitsPerOne = Nat.pow 2 b := by
  refine ⟨1074, rfl, ?_⟩
  delta unitsPerOne
  exact Eq.refl (Nat.pow 2 1074)

theorem unitsPerOne_pos : 0 < unitsPerOne := by
  obtain ⟨b, -, hone⟩ := exists_unitsPerOne
  rw [hone]
  exact Nat.pow_pos Nat.two_pos

/-- and above zero. -/
theorem le_low {x : Binary64} (hx : x.magnitude ≠ 0) : 2 ≤ x.neighbourhood.low := by
  have hle : Nat.pow 2 x.scale ≤ x.units := Nat.le_mul_of_pos_left _ (significand_pos hx)
  have hpositive : 0 < Nat.pow 2 x.scale := Nat.pow_pos (by decide)
  unfold neighbourhood
  dsimp only
  split <;> omega

/-- The exponents of the decimals near a number are within the bounds that are computed with. -/
theorem exponent_bounds {x : Binary64} {d : Decimal} (hx : x.magnitude ≠ 0) (h : x.Near d) :
    d.coefficient ≠ 0 ∧ -400 ≤ d.exponent + Decimal.digitCount d.coefficient ∧
      d.exponent + Decimal.digitCount d.coefficient ≤ 400 := by
  obtain ⟨hlow, hhigh, -⟩ := Neighbourhood.bounds h
  obtain ⟨coefficient, exponent⟩ := d
  obtain ⟨b, hb, hone⟩ := exists_unitsPerOne
  dsimp only at *
  rw [hone] at hlow hhigh
  have hleast := le_low hx
  have hdigits := Decimal.lt_pow_digitCount coefficient
  have hden := pow_ten_pos (-exponent).toNat
  have hcoefficient : coefficient ≠ 0 := by
    rintro rfl
    have hpositive := Nat.mul_pos (Nat.lt_of_lt_of_le Nat.two_pos hleast) hden
    rw [Nat.zero_mul, Nat.zero_mul] at hlow
    omega
  have hcount := Decimal.pow_digitCount_le hcoefficient
  generalize Decimal.digitCount coefficient = count at *
  refine ⟨hcoefficient, ?_, ?_⟩
  · by_contra hbelow
    obtain ⟨places, hplaces, hmany⟩ :
        ∃ places, (-exponent).toNat = count + exponent.toNat + places ∧ 400 < places :=
      ⟨(-exponent).toNat - (count + exponent.toNat), by omega, by omega⟩
    have hpower : Nat.pow 2 b * 2 ≤ Nat.pow 10 places :=
      (two_pow_le (a := places) (b := 0) (k := b + 1) (by omega)).trans_eq (Nat.mul_one _)
    have hsmall : coefficient * Nat.pow 10 exponent.toNat < Nat.pow 10 (count + exponent.toNat) :=
      pow_add_ten _ _ ▸ Nat.mul_lt_mul_of_pos_right hdigits (pow_ten_pos _)
    have hchain : Nat.pow 10 (count + exponent.toNat) * (Nat.pow 2 b * 2) * 2 ≤
        coefficient * Nat.pow 10 exponent.toNat * (Nat.pow 2 b * 2) * 2 :=
      calc Nat.pow 10 (count + exponent.toNat) * (Nat.pow 2 b * 2) * 2
        _ ≤ Nat.pow 10 (count + exponent.toNat) * Nat.pow 10 places * 2 :=
            Nat.mul_le_mul_right 2 (Nat.mul_le_mul_left _ hpower)
        _ = 2 * Nat.pow 10 (-exponent).toNat := by rw [hplaces, pow_add_ten _ places]; ring
        _ ≤ x.neighbourhood.low * Nat.pow 10 (-exponent).toNat := Nat.mul_le_mul_right _ hleast
        _ ≤ 4 * (coefficient * Nat.pow 10 exponent.toNat * Nat.pow 2 b) := hlow
        _ = coefficient * Nat.pow 10 exponent.toNat * (Nat.pow 2 b * 2) * 2 := by ring
    have hpositive : 0 < Nat.pow 2 b * 2 := Nat.mul_pos (Nat.pow_pos Nat.two_pos) Nat.two_pos
    exact Nat.not_le.2 hsmall
      (Nat.le_of_mul_le_mul_right (Nat.le_of_mul_le_mul_right hchain Nat.two_pos) hpositive)
  · by_contra habove
    obtain ⟨places, hplaces, hmany⟩ :
        ∃ places, count + exponent.toNat = 1 + places + (-exponent).toNat ∧ 400 ≤ places :=
      ⟨count + exponent.toNat - (-exponent).toNat - 1, by omega, by omega⟩
    have hlarge : Nat.pow 10 places * Nat.pow 10 (-exponent).toNat ≤
        coefficient * Nat.pow 10 exponent.toNat := by
      have hle := Nat.mul_le_mul_right (Nat.pow 10 exponent.toNat) hcount
      rw [← pow_add_ten, hplaces, pow_add_ten, pow_add_ten, Nat.mul_assoc, Nat.mul_assoc] at hle
      exact Nat.le_of_mul_le_mul_left hle (by decide)
    have hhighest := x.high_lt (a := places) (b := b) (by omega)
    have hchain : Nat.pow 10 places * Nat.pow 2 b * Nat.pow 10 (-exponent).toNat ≤
        x.neighbourhood.high * Nat.pow 10 (-exponent).toNat :=
      calc Nat.pow 10 places * Nat.pow 2 b * Nat.pow 10 (-exponent).toNat
        _ = Nat.pow 10 places * Nat.pow 10 (-exponent).toNat * Nat.pow 2 b := by ring
        _ ≤ coefficient * Nat.pow 10 exponent.toNat * Nat.pow 2 b := Nat.mul_le_mul_right _ hlarge
        _ ≤ 4 * (coefficient * Nat.pow 10 exponent.toNat * Nat.pow 2 b) :=
            Nat.le_mul_of_pos_left _ (by decide)
        _ ≤ x.neighbourhood.high * Nat.pow 10 (-exponent).toNat := hhigh
    exact Nat.not_le.2 hhighest (Nat.le_of_mul_le_mul_right hchain hden)

/-- The decimals near a number denote it. -/
theorem nearest?_of_near {x : Binary64} {d : Decimal} (hx : x.magnitude ≠ 0) (h : x.Near d) :
    d.nearest? x.negative = some x := by
  obtain ⟨hcoefficient, hlow, hhigh⟩ := exponent_bounds hx h
  obtain ⟨coefficient, exponent⟩ := d
  unfold Decimal.nearest?
  dsimp only at *
  rw [if_neg (by omega), if_neg (by omega)]
  unfold Near at h
  dsimp only at h
  split
  case isTrue hnonneg =>
    have hden : (-exponent).toNat = 0 := by omega
    rw [hden] at h
    exact ofRatio_of_holds (by decide) rfl hx h
  case isFalse hneg =>
    have hnum : exponent.toNat = 0 := by omega
    rw [hnum, show coefficient * Nat.pow 10 0 = coefficient from Nat.mul_one _] at h
    exact ofRatio_of_holds (pow_ten_pos _) rfl hx h

/-! ### The search -/

theorem near_of_holds {x : Binary64} {exponent : Int} {coefficient : Nat}
    (h : x.neighbourhood.holds (coefficient * (4 * unitsPerOne * Nat.pow 10 exponent.toNat))
      (Nat.pow 10 (-exponent).toNat) = true) : x.Near ⟨coefficient, exponent⟩ := by
  have hnum (one : Nat) : 4 * (coefficient * Nat.pow 10 exponent.toNat * one) =
      coefficient * (4 * one * Nat.pow 10 exponent.toNat) := by ring
  unfold Near
  dsimp only
  rw [hnum]
  exact h

/-- What the search finds on a grid lies in the neighbourhood. -/
theorem near_of_onGrid {x : Binary64} {exponent : Int} {coefficient : Nat}
    (h : x.onGrid exponent = some coefficient) : x.Near ⟨coefficient, exponent⟩ := by
  refine near_of_holds ?_
  unfold onGrid at h
  dsimp only at h
  generalize 4 * unitsPerOne * Nat.pow 10 exponent.toNat = step at *
  generalize 4 * x.units * Nat.pow 10 (-exponent).toNat = value at *
  split at h
  case isTrue hboth =>
    obtain ⟨hdown, hup⟩ := (Bool.and_eq_true _ _).mp hboth
    have hbetween : coefficient = value / step ∨ coefficient = value / step + 1 := by
      split at h
      · exact Or.inl (Option.some.inj h).symm
      · split at h
        · have := Option.some.inj h
          omega
        · exact Or.inr (Option.some.inj h).symm
    rcases hbetween with rfl | rfl
    · exact hdown
    · exact hup
  case isFalse =>
    split at h
    case isTrue hdown =>
      obtain rfl := Option.some.inj h
      exact hdown
    case isFalse =>
      split at h
      case isTrue hup =>
        obtain rfl := Option.some.inj h
        exact hup
      case isFalse => cases h

/-- A grid that is fine enough has a point in the neighbourhood: the one above the number. -/
theorem onGrid_isSome {x : Binary64} {exponent : Int}
    (h : 4 * unitsPerOne * Nat.pow 10 exponent.toNat <
      2 * Nat.pow 2 x.scale * Nat.pow 10 (-exponent).toNat) : (x.onGrid exponent).isSome := by
  have hlow : x.neighbourhood.low * Nat.pow 10 (-exponent).toNat ≤
      4 * x.units * Nat.pow 10 (-exponent).toNat := Nat.mul_le_mul_right _ (Nat.sub_le ..)
  have hhigh : x.neighbourhood.high * Nat.pow 10 (-exponent).toNat =
      4 * x.units * Nat.pow 10 (-exponent).toNat +
        2 * Nat.pow 2 x.scale * Nat.pow 10 (-exponent).toNat := Nat.add_mul ..
  have hstep : 0 < 4 * unitsPerOne * Nat.pow 10 exponent.toNat :=
    Nat.mul_pos (Nat.mul_pos (by decide) unitsPerOne_pos) (pow_ten_pos _)
  unfold onGrid
  dsimp only
  generalize 4 * unitsPerOne * Nat.pow 10 exponent.toNat = step at *
  generalize 4 * x.units * Nat.pow 10 (-exponent).toNat = value at *
  have hup : x.neighbourhood.holds ((value / step + 1) * step) (Nat.pow 10 (-exponent).toNat) =
      true := by
    have hdiv := Nat.div_add_mod value step
    have hmod := Nat.mod_lt value hstep
    have hnext : (value / step + 1) * step = step * (value / step) + step := by ring
    unfold Neighbourhood.holds
    rw [hnext, hhigh]
    split <;> simp only [Bool.and_eq_true, decide_eq_true_eq] <;> omega
  simp only [hup, Bool.and_true, if_true]
  split_ifs <;> rfl

/-- The power of ten that the search begins at is not greater than the number. -/
theorem decimalExponent_le {x : Binary64} (hx : x.magnitude ≠ 0) :
    unitsPerOne * Nat.pow 10 x.decimalExponent.toNat ≤
      x.units * Nat.pow 10 (-x.decimalExponent).toNat := by
  have hunits : 0 < x.units := Nat.mul_pos (significand_pos hx) (Nat.pow_pos Nat.two_pos)
  have hone := unitsPerOne_pos
  unfold decimalExponent
  generalize unitsPerOne = one at *
  generalize x.units = units at *
  split
  case isTrue hle =>
    have hquotient : units / one ≠ 0 := Nat.ne_of_gt (Nat.div_pos hle hone)
    have hpower := Decimal.pow_digitCount_le hquotient
    obtain ⟨count, hcount⟩ : ∃ count, Decimal.digitCount (units / one) = count + 1 := by
      refine Nat.exists_eq_add_one.2 (Nat.pos_of_ne_zero fun hzero => ?_)
      have hlt := Decimal.lt_pow_digitCount (units / one)
      rw [hzero] at hlt
      exact hquotient (Nat.lt_one_iff.1 hlt)
    rw [hcount] at hpower ⊢
    have htop : ((count + 1 : Nat) : Int) - 1 = count := by omega
    have hdown : (-(count : Int)).toNat = 0 := by omega
    rw [htop, hdown, Int.toNat_natCast]
    calc one * Nat.pow 10 count
      _ ≤ one * (units / one) := Nat.mul_le_mul_left _
          (Nat.le_of_mul_le_mul_left ((Nat.mul_comm ..).trans_le hpower) (by decide : 0 < 10))
      _ ≤ units := Nat.mul_div_le ..
      _ = units * Nat.pow 10 0 := (Nat.mul_one _).symm
  case isFalse hlt =>
    have hpower := Decimal.lt_pow_digitCount ((one + units - 1) / units - 1)
    generalize Decimal.digitCount ((one + units - 1) / units - 1) = count at *
    have hup : (-(count : Int)).toNat = 0 := by omega
    rw [hup, Int.neg_neg, Int.toNat_natCast]
    have hdiv := Nat.div_add_mod (one + units - 1) units
    have hmod := Nat.mod_lt (one + units - 1) hunits
    calc one * Nat.pow 10 0
      _ = one := Nat.mul_one one
      _ ≤ units * ((one + units - 1) / units) := by omega
      _ ≤ units * Nat.pow 10 count := Nat.mul_le_mul_left _ (by omega)

theorem near_search {x : Binary64} {top : Int} {found fuel digits : Nat}
    (hfound : (x.onGrid (top - found + 1)).isSome) (hle : digits ≤ found)
    (hlt : found < digits + fuel) : x.Near (x.search top fuel digits) := by
  induction fuel generalizing digits with
  | zero => omega
  | succ fuel ih =>
    rw [search]
    split
    case h_1 coefficient hgrid => exact near_of_onGrid hgrid
    case h_2 hnone =>
      have hne : digits ≠ found := by
        rintro rfl
        rw [hnone] at hfound
        cases hfound
      exact ih (by omega) (by omega)

theorem near_strip {x : Binary64} {d : Decimal} (count : Nat) (h : x.Near d) :
    x.Near (d.strip count) := by
  induction count generalizing d with
  | zero => exact h
  | succ count ih =>
    rw [Decimal.strip]
    split
    case isFalse => exact h
    case isTrue hzero =>
      refine ih ((near_shift x (d.coefficient / 10) 1 (d.exponent + 1)).1 ?_)
      have hcoefficient : d.coefficient / 10 * Nat.pow 10 1 = d.coefficient :=
        Nat.div_mul_cancel (Nat.dvd_of_mod_eq_zero hzero.2)
      have hexponent : d.exponent + 1 - (1 : Nat) = d.exponent := by omega
      rw [hcoefficient, hexponent]
      exact h

/-- Eighteen digits are enough. -/
theorem step_lt {x : Binary64} (hx : x.magnitude ≠ 0) :
    4 * unitsPerOne * Nat.pow 10 (x.decimalExponent - 17).toNat <
      2 * Nat.pow 2 x.scale * Nat.pow 10 (-(x.decimalExponent - 17)).toNat := by
  have htop := decimalExponent_le hx
  have hunits : x.units < Nat.pow 2 53 * Nat.pow 2 x.scale :=
    Nat.mul_lt_mul_of_pos_right x.significand_lt (Nat.pow_pos Nat.two_pos)
  generalize x.decimalExponent = top at *
  have hpower : Nat.pow 10 (top - 17).toNat * (Nat.pow 10 17 * Nat.pow 10 (-top).toNat) =
      Nat.pow 10 (-(top - 17)).toNat * Nat.pow 10 top.toNat := by
    simp only [← pow_add_ten]
    congr 1
    omega
  have hup := pow_ten_pos (-(top - 17)).toNat
  have hdown := pow_ten_pos (-top).toNat
  generalize Nat.pow 10 (top - 17).toNat = up at *
  generalize Nat.pow 10 (-(top - 17)).toNat = down at *
  generalize Nat.pow 10 (-top).toNat = under at *
  generalize Nat.pow 10 top.toNat = above at *
  generalize unitsPerOne = one at *
  generalize Nat.pow 2 x.scale = gap at *
  refine Nat.lt_of_mul_lt_mul_right (a := Nat.pow 10 17 * under) ?_
  calc 4 * one * up * (Nat.pow 10 17 * under)
    _ = 4 * one * (up * (Nat.pow 10 17 * under)) := by ring
    _ = 4 * (one * above) * down := by rw [hpower]; ring
    _ ≤ 4 * (x.units * under) * down := Nat.mul_le_mul_right _ (Nat.mul_le_mul_left 4 htop)
    _ = x.units * (4 * under * down) := by ring
    _ < Nat.pow 2 53 * gap * (4 * under * down) :=
        Nat.mul_lt_mul_of_pos_right hunits (Nat.mul_pos (Nat.mul_pos (by decide) hdown) hup)
    _ = Nat.pow 2 55 * (gap * down * under) := by
        rw [show Nat.pow 2 55 = Nat.pow 2 53 * 4 from rfl]
        ring
    _ ≤ 2 * Nat.pow 10 17 * (gap * down * under) := Nat.mul_le_mul_right _ (by decide)
    _ = 2 * gap * down * (Nat.pow 10 17 * under) := by ring

/-- **The digits of a number lie in its neighbourhood.** -/
theorem near_shortest {x : Binary64} (hx : x.magnitude ≠ 0) : x.Near x.shortest := by
  have hexponent : x.decimalExponent - (18 : Nat) + 1 = x.decimalExponent - 17 := by omega
  have hfound : (x.onGrid (x.decimalExponent - (18 : Nat) + 1)).isSome := by
    rw [hexponent]
    exact onGrid_isSome (step_lt hx)
  unfold shortest
  rw [if_neg hx]
  exact near_strip 20 (near_search hfound (by decide) (by decide))

end Binary64

end Flowgraph
