import Flowgraph.Decimal.Reading
import Flowgraph.Proofs.Binary64.Nearest
import Flowgraph.Proofs.Json.Literal

/-!
# Typed numbers are read back

In every layout the text of a number shows the digits of its shortest decimal, perhaps with zeros
after them (`readDecimal?_write`). Those are near the number, so the text is read as the number
(`read?_write`).
-/

set_option autoImplicit false

namespace Flowgraph.Decimal

theorem ofDigits_zeros (digits : List Char) (zeros : Nat) :
    ofDigits (digits ++ List.replicate zeros '0') = ofDigits digits * Nat.pow 10 zeros := by
  induction zeros with
  | zero => simp
  | succ zeros ih =>
    have hpower : Nat.pow 10 (zeros + 1) = Nat.pow 10 zeros * 10 := rfl
    have hzero : digitValue '0' = 0 := rfl
    rw [List.replicate_succ', ← List.append_assoc, ofDigits_concat, ih, hzero, hpower]
    ring

theorem ofDigits_leading (digits : List Char) (zeros : Nat) :
    ofDigits (List.replicate zeros '0' ++ digits) = ofDigits digits := by
  have hzeros : ofDigits (List.replicate zeros '0') = 0 := by
    simpa [ofDigits] using ofDigits_zeros [] zeros
  unfold ofDigits at hzeros ⊢
  rw [List.foldl_append, hzeros]

/-! ### Parts of a text -/

section Parts

variable {whole fraction tail : List Char}

theorem takeWhile_of_head {p : Char → Bool} (h : ∀ c ∈ tail.head?, p c = false) :
    tail.takeWhile p = [] := by
  cases tail with
  | nil => rfl
  | cons c tail => rw [List.takeWhile_cons, h c rfl]; rfl

theorem dropWhile_of_head {p : Char → Bool} (h : ∀ c ∈ tail.head?, p c = false) :
    tail.dropWhile p = tail := by
  cases tail with
  | nil => rfl
  | cons c tail => rw [List.dropWhile_cons, h c rfl]; rfl

theorem takeWhile_digits (hwhole : ∀ c ∈ whole, c.isDigit = true)
    (htail : ∀ c ∈ tail.head?, c.isDigit = false) :
    (whole ++ tail).takeWhile Char.isDigit = whole := by
  rw [List.takeWhile_append_of_pos hwhole, takeWhile_of_head htail, List.append_nil]

theorem dropWhile_digits (hwhole : ∀ c ∈ whole, c.isDigit = true)
    (htail : ∀ c ∈ tail.head?, c.isDigit = false) :
    (whole ++ tail).dropWhile Char.isDigit = tail := by
  rw [List.dropWhile_append_of_pos hwhole, dropWhile_of_head htail]

/-- Digits around a decimal point. -/
theorem readDecimal?_point (hwhole : ∀ c ∈ whole, c.isDigit = true) (hne : whole ≠ [])
    (hfraction : ∀ c ∈ fraction, c.isDigit = true) (htail : ∀ c ∈ tail.head?, c.isDigit = false) :
    readDecimal? (whole ++ '.' :: (fraction ++ tail)) = (readExponent? tail).map fun exponent =>
      ⟨ofDigits (whole ++ fraction), exponent - fraction.length⟩ := by
  have hpoint : ∀ c ∈ ('.' :: (fraction ++ tail)).head?, c.isDigit = false := fun c hc => by
    obtain rfl := Option.some.inj hc
    rfl
  unfold readDecimal?
  dsimp only
  rw [takeWhile_digits hwhole hpoint, dropWhile_digits hwhole hpoint]
  simp [hne, takeWhile_digits hfraction htail, dropWhile_digits hfraction htail]

/-- Digits without a decimal point. -/
theorem readDecimal?_whole (hwhole : ∀ c ∈ whole, c.isDigit = true) (hne : whole ≠ [])
    (htail : ∀ c ∈ tail.head?, c.isDigit = false ∧ c ≠ '.') :
    readDecimal? (whole ++ tail) =
      (readExponent? tail).map fun exponent => ⟨ofDigits whole, exponent⟩ := by
  have hend : ∀ c ∈ tail.head?, c.isDigit = false := fun c hc => (htail c hc).1
  unfold readDecimal?
  dsimp only
  rw [takeWhile_digits hwhole hend, dropWhile_digits hwhole hend]
  split
  case h_1 rest => exact absurd rfl (htail '.' rfl).2
  case h_2 => simp [hne]

end Parts

theorem splitSign_of_digit {text : List Char} (h : ∃ c ∈ text.head?, c.isDigit = true) :
    splitSign text = (false, text) := by
  obtain ⟨c, hc, hdigit⟩ := h
  unfold splitSign
  split
  case h_1 => obtain rfl := Option.some.inj hc; cases hdigit
  case h_2 => obtain rfl := Option.some.inj hc; cases hdigit
  case h_3 => rfl

theorem readExponent?_write (exponent : Int) (plus : Bool) :
    readExponent? ('e' :: ((if exponent < 0 then ['-'] else if plus then ['+'] else []) ++
      Nat.toDigits 10 exponent.natAbs)) = some exponent := by
  have hdigits : ∀ c ∈ Nat.toDigits 10 exponent.natAbs, c.isDigit = true := fun _ => isDigit_of_mem
  have hne : Nat.toDigits 10 exponent.natAbs ≠ [] := Nat.toDigits_ne_nil
  have hsign : splitSign ((if exponent < 0 then ['-'] else if plus then ['+'] else []) ++
      Nat.toDigits 10 exponent.natAbs) =
        (decide (exponent < 0), Nat.toDigits 10 exponent.natAbs) := by
    split
    case isTrue hneg => rw [decide_eq_true hneg]; rfl
    case isFalse hpos =>
      rw [decide_eq_false hpos]
      split
      · rfl
      · exact splitSign_of_digit ⟨_, List.head?_eq_some_head hne, hdigits _ (List.head_mem hne)⟩
  unfold readExponent?
  dsimp only
  rw [hsign]
  have hall : (Nat.toDigits 10 exponent.natAbs).all Char.isDigit = true := List.all_eq_true.2 hdigits
  simp only [hall, ofDigits_toDigits, List.isEmpty_eq_false_iff.2 hne, beq_self_eq_true,
    Bool.true_or, Bool.not_false, Bool.and_true, if_true, decide_eq_true_eq, Option.some.injEq]
  split <;> omega

/-! ### The forms of a text -/

theorem isDigit_zeros (zeros : Nat) : ∀ c ∈ List.replicate zeros '0', c.isDigit = true := by
  intro c hc
  rw [List.eq_of_mem_replicate hc]
  rfl

section Forms

variable {digits : List Char} (hdigits : ∀ c ∈ digits, c.isDigit = true) (hne : digits ≠ [])
include hdigits

/-- The point and zeros are before the digits. -/
theorem readDecimal?_before (zeros : Nat) :
    readDecimal? ('0' :: '.' :: List.replicate zeros '0' ++ digits) =
      some ⟨ofDigits digits, -((zeros : Int) + digits.length)⟩ := by
  have hfraction := List.forall_mem_append.2 ⟨isDigit_zeros zeros, hdigits⟩
  have hread := @readDecimal?_point ['0'] _ [] (isDigit_zeros 1) (List.cons_ne_nil _ _) hfraction
    nofun
  have hmore : ['0'] ++ (List.replicate zeros '0' ++ digits) =
      List.replicate (zeros + 1) '0' ++ digits := rfl
  rw [List.append_nil, hmore, ofDigits_leading] at hread
  refine hread.trans ?_
  simp only [readExponent?, Option.map_some, List.length_append, List.length_replicate,
    Option.some.injEq, Decimal.mk.injEq, true_and]
  omega

include hne

/-- A whole number, perhaps with a zero behind the point. -/
theorem readDecimal?_integer (zeros : Nat) (point : Bool) :
    readDecimal? (digits ++ List.replicate zeros '0' ++ (if point then ['.', '0'] else [])) =
      some ⟨ofDigits digits * Nat.pow 10 (zeros + point.toNat), -(point.toNat : Int)⟩ := by
  have hshown := List.forall_mem_append.2 ⟨hdigits, isDigit_zeros zeros⟩
  have hshown_ne : digits ++ List.replicate zeros '0' ≠ [] := by simp [hne]
  cases point with
  | false =>
    have hread := @readDecimal?_whole _ [] hshown hshown_ne nofun
    rw [ofDigits_zeros] at hread
    exact hread
  | true =>
    have hread := @readDecimal?_point _ ['0'] [] hshown hshown_ne (isDigit_zeros 1) nofun
    have hmore : digits ++ List.replicate zeros '0' ++ ['0'] =
        digits ++ List.replicate (zeros + 1) '0' := by
      rw [List.replicate_succ', List.append_assoc]
    rw [hmore, ofDigits_zeros] at hread
    exact hread

/-- The point is among the digits. -/
theorem readDecimal?_among {whole : Nat} (hwhole : whole ≠ 0) (hle : whole ≤ digits.length) :
    readDecimal? (digits.take whole ++ '.' :: digits.drop whole) =
      some ⟨ofDigits digits, (whole : Int) - digits.length⟩ := by
  have htake : digits.take whole ≠ [] := by simp [hwhole, hne]
  have hdrop : ∀ c ∈ digits.drop whole, c.isDigit = true := fun c hc =>
    hdigits c (List.mem_of_mem_drop hc)
  have hread := @readDecimal?_point (digits.take whole) (digits.drop whole) []
    (fun c hc => hdigits c (List.mem_of_mem_take hc)) htake hdrop nofun
  rw [List.append_nil, List.take_append_drop, List.length_drop] at hread
  simp only [hread, readExponent?, Option.map_some, Option.some.injEq, Decimal.mk.injEq, true_and]
  omega

end Forms

/-- One digit before the point, and an exponent. -/
theorem readDecimal?_mantissa {digits mantissa tail : List Char} {exponent : Int}
    (hmantissa : mantissa = match digits with
      | [] => []
      | [d] => [d]
      | d :: rest => d :: '.' :: rest)
    (hdigits : ∀ c ∈ digits, c.isDigit = true) (hne : digits ≠ [])
    (htail : ∀ c ∈ tail.head?, c.isDigit = false ∧ c ≠ '.')
    (hexponent : readExponent? tail = some exponent) :
    readDecimal? (mantissa ++ tail) =
      some ⟨ofDigits digits, exponent - (digits.length - 1)⟩ := by
  subst hmantissa
  cases digits with
  | nil => exact absurd rfl hne
  | cons first rest =>
    have hfirst : ∀ c ∈ [first], c.isDigit = true := fun c hc =>
      hdigits c (List.mem_of_mem_head? (List.mem_singleton.1 hc ▸ rfl))
    cases rest with
    | nil =>
      refine (readDecimal?_whole hfirst hne htail).trans ?_
      rw [hexponent]
      simp
    | cons second rest =>
      have hrest : ∀ c ∈ second :: rest, c.isDigit = true := fun c hc =>
        hdigits c (List.mem_cons_of_mem _ hc)
      refine (readDecimal?_point hfirst (List.cons_ne_nil _ _) hrest fun c hc =>
        (htail c hc).1).trans ?_
      rw [hexponent, List.singleton_append]
      simp only [Option.map_some, Option.some.injEq, Decimal.mk.injEq, true_and, List.length_cons]
      omega

/-- The text of a decimal shows its digits and zeros after them. -/
theorem readDecimal?_write (l : Layout) (d : Decimal) : ∃ zeros : Nat,
    readDecimal? (l.writeDecimal d) =
      some ⟨d.coefficient * Nat.pow 10 zeros, d.exponent - zeros⟩ := by
  obtain ⟨coefficient, exponent⟩ := d
  have hdigits : ∀ c ∈ Nat.toDigits 10 coefficient, c.isDigit = true := fun _ => isDigit_of_mem
  have hne : Nat.toDigits 10 coefficient ≠ [] := Nat.toDigits_ne_nil
  have hvalue := ofDigits_toDigits coefficient
  unfold Layout.writeDecimal
  dsimp only
  generalize Nat.toDigits 10 coefficient = digits at *
  have hlength : 0 < digits.length := List.length_pos_iff.2 hne
  -- only a whole number shows zeros that its coefficient does not have
  have hnone {e : Int} (h : e = exponent) : (⟨coefficient, e⟩ : Decimal) =
      ⟨coefficient * Nat.pow 10 0, exponent - (0 : Nat)⟩ := by
    rw [h, Nat.cast_zero, Int.sub_zero]
    exact congrArg (Decimal.mk · exponent) (Nat.mul_one coefficient).symm
  split
  case isTrue =>
    split
    case isTrue hwhole =>
      refine ⟨exponent.toNat + l.point.toNat, ?_⟩
      rw [readDecimal?_integer hdigits hne, hvalue]
      simp only [Option.some.injEq, Decimal.mk.injEq, true_and]
      omega
    case isFalse hpart =>
      refine ⟨0, ?_⟩
      split
      case isTrue hlead =>
        rw [readDecimal?_among hdigits hne (by omega) (by omega), hvalue]
        exact congrArg some (hnone (by omega))
      case isFalse hlead =>
        rw [readDecimal?_before hdigits, hvalue]
        exact congrArg some (hnone (by omega))
  case isFalse =>
    refine ⟨0, ?_⟩
    have hexponent := readExponent?_write (exponent + digits.length - 1) l.plus
    rw [List.append_assoc, List.cons_append]
    refine (readDecimal?_mantissa rfl hdigits hne (fun c hc => ?_) hexponent).trans ?_
    · obtain rfl := Option.some.inj hc
      decide
    · rw [hvalue]
      exact congrArg some (hnone (by omega))

theorem toLower_of_isDigit {c : Char} (h : c.isDigit = true) : c.toLower = c := by
  simp only [Char.isDigit, Bool.and_eq_true, decide_eq_true_eq] at h
  unfold Char.toLower
  rw [dif_neg]
  rintro ⟨hlow, -⟩
  exact absurd (UInt32.le_trans hlow h.2) (by decide)

/-- What begins with a digit is none of the words. -/
theorem word_ne_of_digit {text : List Char} {c : Char} {rest : List Char}
    (h : ∃ c ∈ text.head?, c.isDigit = true) (hc : c.isDigit = false) :
    text.map Char.toLower ≠ c :: rest := by
  obtain ⟨d, hd, hdigit⟩ := h
  obtain ⟨text, rfl⟩ := List.head?_eq_some_iff.1 hd
  rintro heq
  obtain ⟨hlower, -⟩ := List.cons.inj heq
  rw [← hlower, toLower_of_isDigit hdigit, hdigit] at hc
  cases hc

/-- **The text of a number is read as the number.** -/
theorem read?_write (l : Layout) (x : Binary64) : read? (l.write x) = some (.finite x) := by
  have hhead := l.head?_writeDecimal x.shortest
  have hsign : splitSign (l.write x) = (x.negative, l.writeDecimal x.shortest) := by
    unfold Layout.write
    split
    case isTrue hneg => rw [hneg]; rfl
    case isFalse hpos =>
      rw [Bool.eq_false_of_not_eq_true hpos]
      exact splitSign_of_digit hhead
  have hword (word : String) (h : ∃ c ∈ word.toList.head?, c.isDigit = false) :
      String.ofList ((l.writeDecimal x.shortest).map Char.toLower) ≠ word := by
    obtain ⟨c, hc, hletter⟩ := h
    obtain ⟨rest, hrest⟩ := List.head?_eq_some_iff.1 hc
    intro heq
    exact word_ne_of_digit hhead hletter
      ((String.toList_ofList ▸ congrArg String.toList heq).trans hrest)
  obtain ⟨zeros, hread⟩ := readDecimal?_write l x.shortest
  have hnearest : Decimal.nearest? x.negative ⟨x.shortest.coefficient * Nat.pow 10 zeros,
      x.shortest.exponent - zeros⟩ = some x := by
    by_cases hx : x.magnitude = 0
    · obtain ⟨negative, magnitude, finite⟩ := x
      obtain rfl : magnitude = 0 := hx
      have hzero : Binary64.shortest ⟨negative, 0, finite⟩ = ⟨0, 0⟩ := rfl
      unfold nearest?
      rw [hzero, Nat.zero_mul, if_pos (Or.inl rfl)]
      exact dif_pos finite
    · exact Binary64.nearest?_of_near hx
        ((Binary64.near_shift x _ zeros _).2 (Binary64.near_shortest hx))
  unfold read?
  rw [hsign]
  dsimp only
  rw [if_neg (not_or.2 ⟨hword "inf" ⟨'i', rfl, rfl⟩, hword "infinity" ⟨'i', rfl, rfl⟩⟩),
    if_neg (hword "nan" ⟨'n', rfl, rfl⟩), hread, Option.map_some, hnearest]

end Flowgraph.Decimal
