import Flowgraph.Proofs.Binary64.Nearest

/-!
# Integers as binary numbers

An integer becomes a binary number by rounding to 53 binary digits (`roundedInt`), the even number
on a tie, and that is all that happens to it: the number has exactly this value
(`signedUnits_of_ofInt?`). Rounding never changes the order of two integers, leaves integers of 53
digits as they are and moves the others by at most a half of their gap, so that it can only make
integers equal that are close together (`roundedInt_mono`, `roundedInt_lt`). Numbers are compared by
their exact values (`key_lt_iff`, `key_eq_iff`).
-/

set_option autoImplicit false

namespace Flowgraph.Binary64

/-! ### Rounding a quotient -/

section

variable {num num' den q k : Nat}

theorem le_roundDiv (hden : 0 < den) (h : q * den ≤ num) : q ≤ roundDiv num den := by
  have hquotient : q ≤ num / den := (Nat.le_div_iff_mul_le hden).2 h
  unfold roundDiv
  dsimp only
  split
  · exact hquotient
  · split <;> omega

theorem roundDiv_le (hden : 0 < den) (h : num ≤ q * den) : roundDiv num den ≤ q := by
  have hdiv := Nat.div_add_mod num den
  rw [Nat.mul_comm] at hdiv
  have hquotient : num / den ≤ q := Nat.div_le_of_le_mul (h.trans_eq (Nat.mul_comm ..))
  -- a remainder is left only below `q`
  have hrest : num % den ≠ 0 → num / den < q := fun hrest =>
    Nat.lt_of_mul_lt_mul_right (a := den) (by omega)
  unfold roundDiv
  dsimp only
  generalize num / den = quotient at *
  generalize num % den = rest at *
  split
  · exact hquotient
  · have hlt := hrest (by omega)
    split <;> omega

/-- What is divided without a rest is not rounded. -/
theorem roundDiv_mul_self (hden : 0 < den) : roundDiv (q * den) den = q :=
  Nat.le_antisymm (roundDiv_le hden (Nat.le_refl _)) (le_roundDiv hden (Nat.le_refl _))

theorem roundDiv_mono (h : num ≤ num') : roundDiv num den ≤ roundDiv num' den := by
  have hdiv := Nat.div_add_mod num den
  have hdiv' := Nat.div_add_mod num' den
  have hquotient : num / den ≤ num' / den := Nat.div_le_div_right h
  unfold roundDiv
  dsimp only
  rcases Nat.lt_or_eq_of_le hquotient with hlt | heq
  · split_ifs <;> omega
  · rw [heq] at hdiv ⊢
    split_ifs <;> omega

/-- The result is off by a half at most. -/
theorem roundDiv_near (num : Nat) (hden : 0 < den) :
    2 * num ≤ 2 * (roundDiv num den * den) + den ∧
      2 * (roundDiv num den * den) ≤ 2 * num + den := by
  have hdiv := Nat.div_add_mod num den
  have hmod := Nat.mod_lt num hden
  rw [Nat.mul_comm] at hdiv
  have hsucc : (num / den + 1) * den = num / den * den + den := Nat.succ_mul ..
  unfold roundDiv
  dsimp only
  split_ifs
  · omega
  · rcases Nat.mod_two_eq_zero_or_one (num / den) with heven | hodd
    · rw [heven, Nat.add_zero]
      omega
    · rw [hodd]
      omega
  · omega

/-- A common factor does not matter. -/
theorem roundDiv_mul_right (hk : 0 < k) : roundDiv (num * k) (den * k) = roundDiv num den := by
  have hlt : 2 * (num % den * k) < den * k ↔ 2 * (num % den) < den := by
    rw [← Nat.mul_assoc, Nat.mul_lt_mul_right hk]
  have heq : 2 * (num % den * k) = den * k ↔ 2 * (num % den) = den := by
    rw [← Nat.mul_assoc, Nat.mul_left_inj (Nat.ne_of_gt hk)]
  unfold roundDiv
  simp only [Nat.mul_div_mul_right _ _ hk, Nat.mul_mod_mul_right, hlt, heq]

end

/-! ### The exact value of a number -/

section

variable {x y : Binary64}

/-- Scale and significand can be read off a magnitude, also if the significand was rounded up to
the next power of two. -/
theorem units_of_magnitude {k q : Nat} (h : k * fractionSize + q = x.magnitude)
    (hq : q ≤ 2 * fractionSize) (hk : k ≠ 0 → fractionSize ≤ q) : x.units = q * Nat.pow 2 k := by
  have hmagnitude := x.magnitude_eq
  have hless := x.significand_lt
  have hleast := @le_significand x
  have hsize : fractionSize = 4503599627370496 := rfl
  rw [hsize] at h hq hk hmagnitude hless hleast
  unfold units
  by_cases hcarry : q = 2 * 4503599627370496
  · have hscale : x.scale = k + 1 := by omega
    have hsignificand : x.significand = 4503599627370496 := by omega
    rw [hscale, hsignificand, hcarry, show Nat.pow 2 (k + 1) = Nat.pow 2 k * 2 from rfl]
    ring
  · have hscale : x.scale = k := by omega
    have hsignificand : x.significand = q := by omega
    rw [hscale, hsignificand]

theorem units_lt_of_lt (h : x.magnitude < y.magnitude) : x.units < y.units := by
  have hx := x.magnitude_eq
  have hy := y.magnitude_eq
  have hless := x.significand_lt
  have hless' := y.significand_lt
  have hleast := @le_significand x
  have hleast' := @le_significand y
  have hsize : fractionSize = 4503599627370496 := rfl
  rw [hsize] at hx hy hless hless' hleast hleast'
  unfold units
  rcases Nat.lt_trichotomy x.scale y.scale with hlt | heq | hgt
  · calc x.significand * Nat.pow 2 x.scale
      _ < 2 * 4503599627370496 * Nat.pow 2 x.scale :=
          Nat.mul_lt_mul_of_pos_right hless (Nat.pow_pos Nat.two_pos)
      _ = 4503599627370496 * Nat.pow 2 (x.scale + 1) := by
          rw [show Nat.pow 2 (x.scale + 1) = Nat.pow 2 x.scale * 2 from rfl]
          ring
      _ ≤ 4503599627370496 * Nat.pow 2 y.scale :=
          Nat.mul_le_mul_left _ (Nat.pow_le_pow_right Nat.two_pos hlt)
      _ ≤ y.significand * Nat.pow 2 y.scale := Nat.mul_le_mul_right _ (hleast' (by omega))
  · rw [heq] at hx ⊢
    exact Nat.mul_lt_mul_of_pos_right (by omega) (Nat.pow_pos Nat.two_pos)
  · omega

theorem units_lt_iff : x.units < y.units ↔ x.magnitude < y.magnitude := by
  refine ⟨fun h => Nat.not_le.1 fun hle => ?_, units_lt_of_lt⟩
  rcases Nat.lt_or_eq_of_le hle with hlt | heq
  · exact Nat.lt_asymm h (units_lt_of_lt hlt)
  · have hunits : x.units = y.units := by
      unfold units significand scale
      rw [heq]
    omega

/-- The exact value of a number as a multiple of `2 ^ -1074`. -/
def signedUnits (x : Binary64) : Int := if x.negative then -(x.units : Int) else x.units

/-- **Numbers are in the order of their exact values.** -/
theorem key_lt_iff : x.key < y.key ↔ x.signedUnits < y.signedUnits := by
  have hlt := units_lt_iff (x := x) (y := y)
  have hgt := units_lt_iff (x := y) (y := x)
  -- of two numbers with different signs only zeros are not told apart by their signs
  have hx : 0 < x.units ↔ 0 < x.magnitude := units_lt_iff (x := zero)
  have hy : 0 < y.units ↔ 0 < y.magnitude := units_lt_iff (x := zero)
  unfold key signedUnits
  split <;> split <;> omega

theorem key_eq_iff : x.key = y.key ↔ x.signedUnits = y.signedUnits := by
  have hlt := key_lt_iff (x := x) (y := y)
  have hgt := key_lt_iff (x := y) (y := x)
  omega

end

/-! ### Integers -/

/-- The number of at most 53 binary digits, zeros after them apart, that is nearest to a natural
number; the even one on a tie. -/
def roundedNat (n : Nat) : Nat :=
  let gap := Nat.pow 2 (Nat.log2 n - 52)
  roundDiv n gap * gap

/-- The same for an integer. -/
def roundedInt (n : Int) : Int :=
  if n < 0 then -(roundedNat n.natAbs : Int) else roundedNat n.natAbs

section

variable {m n : Nat}

theorem pow_add_two (a b : Nat) : Nat.pow 2 (a + b) = Nat.pow 2 a * Nat.pow 2 b := Nat.pow_add ..

theorem pow_two_pos (k : Nat) : 0 < Nat.pow 2 k := Nat.pow_pos Nat.two_pos

/-- A number of 53 digits is not rounded. -/
theorem roundedNat_of_le (h : n ≤ 9007199254740992) : roundedNat n = n := by
  rcases Nat.lt_or_eq_of_le h with hlt | rfl
  · have hgap : Nat.log2 n - 52 = 0 := shift_eq (fun hne => absurd rfl hne) hlt
    unfold roundedNat
    rw [hgap]
    show roundDiv n 1 * 1 = n
    rw [roundDiv_one, Nat.mul_one]
  · decide +kernel

theorem roundedNat_near (n : Nat) :
    2 * n ≤ 2 * roundedNat n + Nat.pow 2 (Nat.log2 n - 52) ∧
      2 * roundedNat n ≤ 2 * n + Nat.pow 2 (Nat.log2 n - 52) :=
  roundDiv_near n (pow_two_pos _)

/-- Rounding stays between two powers of two. -/
theorem roundedNat_bounds (h : n ≠ 0) :
    Nat.pow 2 n.log2 ≤ roundedNat n ∧ roundedNat n ≤ Nat.pow 2 (n.log2 + 1) := by
  have hsplit : Nat.pow 2 n.log2 = Nat.pow 2 (n.log2 - (n.log2 - 52)) * Nat.pow 2 (n.log2 - 52) :=
    calc Nat.pow 2 n.log2
      _ = Nat.pow 2 (n.log2 - (n.log2 - 52) + (n.log2 - 52)) := by congr 1; omega
      _ = _ := pow_add_two ..
  have hnext : Nat.pow 2 (n.log2 + 1) =
      Nat.pow 2 (n.log2 - (n.log2 - 52)) * 2 * Nat.pow 2 (n.log2 - 52) := by
    rw [show Nat.pow 2 (n.log2 + 1) = Nat.pow 2 n.log2 * 2 from rfl, hsplit]
    ring
  have hlow : Nat.pow 2 n.log2 ≤ n := Nat.log2_self_le h
  have hhigh : n ≤ Nat.pow 2 (n.log2 + 1) := Nat.le_of_lt Nat.lt_log2_self
  rw [hsplit] at hlow
  rw [hnext] at hhigh
  constructor
  · rw [hsplit]
    exact Nat.mul_le_mul_right _ (le_roundDiv (pow_two_pos _) hlow)
  · rw [hnext]
    exact Nat.mul_le_mul_right _ (roundDiv_le (pow_two_pos _) hhigh)

/-- Rounding keeps the order. -/
theorem roundedNat_mono (h : m ≤ n) : roundedNat m ≤ roundedNat n := by
  by_cases hm : m = 0
  · subst hm
    exact (roundedNat_of_le (by decide)).trans_le (Nat.zero_le _)
  · have hlog : m.log2 ≤ n.log2 := (Nat.le_log2 (by omega)).2 ((Nat.log2_self_le hm).trans h)
    rcases Nat.lt_or_eq_of_le hlog with hlt | heq
    · calc roundedNat m
        _ ≤ Nat.pow 2 (m.log2 + 1) := (roundedNat_bounds hm).2
        _ ≤ Nat.pow 2 n.log2 := Nat.pow_le_pow_right Nat.two_pos hlt
        _ ≤ roundedNat n := (roundedNat_bounds (by omega)).1
    · unfold roundedNat
      rw [heq]
      exact Nat.mul_le_mul_right _ (roundDiv_mono h)

/-- A number of 64 digits is moved by a half of `2 ^ 11` at most. -/
theorem roundedNat_near_of_lt (h : n < 18446744073709551616) :
    n ≤ roundedNat n + 1024 ∧ roundedNat n ≤ n + 1024 := by
  obtain ⟨hlow, hhigh⟩ := roundedNat_near n
  have hgap : Nat.pow 2 (n.log2 - 52) ≤ Nat.pow 2 11 := by
    refine Nat.pow_le_pow_right Nat.two_pos ?_
    by_cases hn : n = 0
    · subst hn
      decide
    · have hlog : n.log2 < 64 := (Nat.log2_lt hn).2 h
      omega
  have heleven : Nat.pow 2 11 = 2048 := rfl
  omega

end

section

variable {m n : Int}

theorem roundedInt_of_le (h : n.natAbs ≤ 9007199254740992) : roundedInt n = n := by
  unfold roundedInt
  rw [roundedNat_of_le h]
  split <;> omega

theorem roundedInt_mono (h : m ≤ n) : roundedInt m ≤ roundedInt n := by
  unfold roundedInt
  split
  · split
    · have hmono := roundedNat_mono (m := n.natAbs) (n := m.natAbs) (by omega)
      omega
    · omega
  · rw [if_neg (by omega)]
    have hmono := roundedNat_mono (m := m.natAbs) (n := n.natAbs) (by omega)
    omega

theorem roundedInt_near (h : n.natAbs < 18446744073709551616) :
    n - 1024 ≤ roundedInt n ∧ roundedInt n ≤ n + 1024 := by
  obtain ⟨hlow, hhigh⟩ := roundedNat_near_of_lt h
  unfold roundedInt
  split <;> omega

/-- Integers are told apart if they have 53 digits, or are further apart than the gaps between
numbers of 64 digits. -/
theorem roundedInt_lt (h : m < n) (hapart : m.natAbs ≤ 9007199254740992 ∧
      n.natAbs ≤ 9007199254740992 ∨ m.natAbs < 18446744073709551616 ∧
      n.natAbs < 18446744073709551616 ∧ 2048 < n - m) : roundedInt m < roundedInt n := by
  rcases hapart with ⟨hm, hn⟩ | ⟨hm, hn, hgap⟩
  · rwa [roundedInt_of_le hm, roundedInt_of_le hn]
  · have hm := roundedInt_near hm
    have hn := roundedInt_near hn
    omega

end

/-! ### The number for an integer -/

/-- What a ratio is rounded to has 53 binary digits, or is the next power of two. -/
theorem roundDiv_bounds {den : Nat} (hden : 0 < den) (scaled : Nat) :
    let shift := Nat.log2 (scaled / den) - 52
    let q := roundDiv scaled (den * Nat.pow 2 shift)
    q ≤ 2 * fractionSize ∧ (shift ≠ 0 → fractionSize ≤ q) := by
  intro shift q
  have hstep : 0 < den * Nat.pow 2 shift := Nat.mul_pos hden (pow_two_pos _)
  refine ⟨roundDiv_le hstep ?_, fun hshift => le_roundDiv hstep ?_⟩
  · have hquotient : scaled / den + 1 ≤ Nat.pow 2 (shift + 53) :=
      Nat.lt_of_lt_of_le Nat.lt_log2_self (Nat.pow_le_pow_right Nat.two_pos (by omega))
    calc scaled
      _ ≤ (scaled / den + 1) * den :=
          Nat.le_of_lt ((Nat.lt_mul_div_succ scaled hden).trans_eq (Nat.mul_comm ..))
      _ ≤ Nat.pow 2 (shift + 53) * den := Nat.mul_le_mul_right _ hquotient
      _ = Nat.pow 2 53 * (den * Nat.pow 2 shift) := pow_scale_mul ..
  · have hzero : scaled / den ≠ 0 := by
      intro hzero
      have hnone : shift = Nat.log2 0 - 52 := congrArg (Nat.log2 · - 52) hzero
      exact hshift hnone
    have hquotient : Nat.pow 2 (shift + 52) ≤ scaled / den :=
      (Nat.pow_le_pow_right Nat.two_pos (by omega)).trans (Nat.log2_self_le hzero)
    calc Nat.pow 2 52 * (den * Nat.pow 2 shift)
      _ = Nat.pow 2 (shift + 52) * den := (pow_scale_mul ..).symm
      _ ≤ scaled / den * den := Nat.mul_le_mul_right _ hquotient
      _ ≤ scaled := Nat.div_mul_le_self ..

/-- A rounded ratio is a multiple of the power of two that it was rounded to. -/
theorem units_of_ofRatio {negative : Bool} {num den scaled : Nat} {x : Binary64} (hden : 0 < den)
    (hscaled : num * unitsPerOne = scaled) (h : ofRatio negative num den = some x) :
    let gap := Nat.pow 2 (Nat.log2 (scaled / den) - 52)
    x.negative = negative ∧ x.units = roundDiv scaled (den * gap) * gap := by
  intro gap
  obtain ⟨hle, hge⟩ := roundDiv_bounds hden scaled
  unfold ofRatio ofMagnitude? at h
  dsimp only at h
  rw [hscaled] at h
  split at h
  case isFalse => cases h
  case isTrue hfinite =>
    obtain rfl := Option.some.inj h
    exact ⟨rfl, units_of_magnitude rfl hle hge⟩

/-- In units an integer has so many zeros at its end that only its own digits are rounded. -/
theorem roundDiv_units (n : Nat) {b : Nat} (hb : 52 ≤ b) :
    let gap := Nat.pow 2 (Nat.log2 (n * Nat.pow 2 b) - 52)
    roundDiv (n * Nat.pow 2 b) gap * gap = roundedNat n * Nat.pow 2 b := by
  intro gap
  by_cases hn : n = 0
  · subst hn
    have hzero : roundDiv 0 gap = 0 := by
      have hmul := roundDiv_mul_self (q := 0) (pow_two_pos (Nat.log2 (0 * Nat.pow 2 b) - 52))
      rwa [Nat.zero_mul] at hmul
    rw [roundedNat_of_le (by decide), Nat.zero_mul, hzero, Nat.zero_mul]
  · have hlow : Nat.pow 2 (n.log2 + b) ≤ n * Nat.pow 2 b :=
      (pow_add_two ..).trans_le (Nat.mul_le_mul_right _ (Nat.log2_self_le hn))
    have hhigh : n * Nat.pow 2 b < Nat.pow 2 (n.log2 + 1 + b) :=
      (Nat.mul_lt_mul_of_pos_right Nat.lt_log2_self (pow_two_pos b)).trans_eq
        (pow_add_two ..).symm
    have hgap : gap = Nat.pow 2 (n.log2 + b - 52) := by
      refine congrArg (Nat.pow 2) (shift_eq (fun _ => ?_) ?_)
      · rwa [show n.log2 + b - 52 + 52 = n.log2 + b by omega]
      · rwa [show n.log2 + b - 52 + 53 = n.log2 + 1 + b by omega]
    rw [hgap]
    by_cases hshort : n.log2 ≤ 52
    · have hexact : n * Nat.pow 2 b =
          n * Nat.pow 2 (52 - n.log2) * Nat.pow 2 (n.log2 + b - 52) :=
        calc n * Nat.pow 2 b
          _ = n * Nat.pow 2 (52 - n.log2 + (n.log2 + b - 52)) := by congr 2; omega
          _ = _ := by rw [pow_add_two, Nat.mul_assoc]
      have hle : n ≤ 9007199254740992 :=
        (Nat.le_of_lt Nat.lt_log2_self).trans
          (Nat.pow_le_pow_right Nat.two_pos (show n.log2 + 1 ≤ 53 by omega))
      rw [roundedNat_of_le hle, hexact, roundDiv_mul_self (pow_two_pos _)]
    · have hsplit : Nat.pow 2 (n.log2 + b - 52) = Nat.pow 2 (n.log2 - 52) * Nat.pow 2 b :=
        calc Nat.pow 2 (n.log2 + b - 52)
          _ = Nat.pow 2 (n.log2 - 52 + b) := by congr 1; omega
          _ = _ := pow_add_two ..
      rw [hsplit, roundDiv_mul_right (pow_two_pos b), ← Nat.mul_assoc]
      rfl

/-- The number for an integer has the value of the rounded integer, -/
theorem signedUnits_of_ofInt? {n : Int} {x : Binary64} (h : ofInt? n = some x) :
    x.signedUnits = roundedInt n * unitsPerOne := by
  obtain ⟨b, hb, hone⟩ := exists_unitsPerOne
  obtain ⟨hnegative, hunits⟩ := units_of_ofRatio Nat.one_pos rfl h
  rw [hone, Nat.div_one, Nat.one_mul, roundDiv_units n.natAbs (by omega), ← hone] at hunits
  unfold signedUnits roundedInt
  rw [hnegative, hunits]
  split
  case isTrue hneg =>
    rw [if_pos (of_decide_eq_true hneg)]
    push_cast
    ring
  case isFalse hneg =>
    rw [if_neg (of_decide_eq_false (Bool.eq_false_iff.2 hneg))]
    push_cast
    ring

/-- and there is one for every integer of 64 digits. -/
theorem ofInt?_isSome {n : Int} (h : n.natAbs < 18446744073709551616) : (ofInt? n).isSome := by
  obtain ⟨b, hb, hone⟩ := exists_unitsPerOne
  obtain ⟨hbound, -⟩ := roundDiv_bounds Nat.one_pos (n.natAbs * unitsPerOne)
  have hshift : Nat.log2 (n.natAbs * unitsPerOne / 1) - 52 ≤ 1085 := by
    rw [Nat.div_one, hone]
    by_cases hzero : n.natAbs * Nat.pow 2 b = 0
    · rw [hzero]
      decide
    · have hlt : n.natAbs * Nat.pow 2 b < Nat.pow 2 (64 + b) :=
        (Nat.mul_lt_mul_of_pos_right h (pow_two_pos b)).trans_eq (pow_add_two 64 b).symm
      have hlog := (Nat.log2_lt hzero).2 hlt
      omega
  unfold ofInt? ofRatio ofMagnitude?
  dsimp only at *
  generalize Nat.log2 (n.natAbs * unitsPerOne / 1) - 52 = shift at *
  rw [dif_pos]
  · rfl
  · have hsize : fractionSize = 4503599627370496 := rfl
    have hlimit : magnitudeLimit = 2047 * 4503599627370496 := rfl
    rw [hsize] at hbound ⊢
    omega

end Flowgraph.Binary64
