import Flowgraph.Time.Reading
import Flowgraph.Proofs.Decode.Found
import Flowgraph.Proofs.Json.Literal

/-!
# Moments are read back

A proper moment is read back from its text (`read_text`), and every moment that is read is proper
(`proper_of_read`).
-/

set_option autoImplicit false

namespace Flowgraph.Moment

/-- Whether the parts of a moment are those of a date and of a time of day, leap seconds included. -/
structure Proper (m : Moment) : Prop where
  date : m.date.valid = true
  hour : m.hour < 24
  minute : m.minute < 60
  second : m.second < 60
  nanos : m.nanos < 1000000000 ∨ m.second = 59 ∧ m.nanos < 2000000000

/-! ### Padded numbers -/

section Padded

variable {width n : Nat}

theorem isDigit_padded (width n : Nat) : ∀ c ∈ padded width n, c.isDigit = true := by
  refine List.forall_mem_append.2 ⟨fun c hc => ?_, fun c hc => Decimal.isDigit_of_mem hc⟩
  rw [List.eq_of_mem_replicate hc]
  rfl

theorem ofDigits_padded (width n : Nat) : Decimal.ofDigits (padded width n) = n := by
  have hzeros : Decimal.ofDigits (List.replicate (width - (Nat.toDigits 10 n).length) '0') = 0 :=
    Nat.ofDigitChars_replicate_zero.trans (Nat.mul_zero _)
  unfold padded Decimal.ofDigits at *
  rw [List.foldl_append, hzeros]
  exact Decimal.ofDigits_toDigits n

theorem length_padded (h : n < Nat.pow 10 width) (hwidth : 0 < width) :
    (padded width n).length = width := by
  have hle := (Nat.length_toDigits_le_iff (b := 10) (by decide) hwidth).2 h
  simp only [padded, List.length_append, List.length_replicate]
  omega

theorem padded_ne_nil (width n : Nat) : padded width n ≠ [] := by simp [padded]

end Padded

namespace Reader

variable {width n : Nat} {digits rest : List Char}

theorem takeWhile_of_head {text : List Char} (h : ∀ c ∈ text.head?, c.isDigit = false) :
    text.takeWhile Char.isDigit = [] := by
  cases text with
  | nil => rfl
  | cons c text => rw [List.takeWhile_cons, h c rfl]; rfl

/-- A padded number is read up to the first character that is no digit, or up to its width. -/
theorem number_padded {k : Nat} (hlength : (padded k n).length ≤ width)
    (hend : (padded k n).length = width ∨ ∀ c ∈ rest.head?, c.isDigit = false) (h : n < 9223372036854775808) :
    number width (padded k n ++ rest) = .ok (n, rest) := by
  have hdigits := isDigit_padded k n
  have htaken : ((padded k n ++ rest).take width).takeWhile Char.isDigit = padded k n := by
    rw [List.take_append, List.take_of_length_le hlength, List.takeWhile_append_of_pos hdigits]
    rcases hend with heq | hhead
    · rw [heq, Nat.sub_self, List.take_zero, List.takeWhile_nil, List.append_nil]
    · rw [takeWhile_of_head fun c hc => hhead c ?_, List.append_nil]
      rw [List.head?_take] at hc
      split at hc
      · cases hc
      · exact hc
  have hvalue := ofDigits_padded k n
  obtain ⟨c, more, hpadded⟩ := List.exists_cons_of_ne_nil (padded_ne_nil k n)
  rw [hpadded] at hdigits htaken hvalue ⊢
  have hc : c.isDigit = true := hdigits c (List.mem_cons_self ..)
  unfold number
  rw [htaken]
  simp only [List.cons_append, hc, hvalue, Bool.not_true, Bool.false_eq_true, if_false,
    if_pos (show n < Nat.pow 2 63 from h), List.length_cons, List.drop_succ_cons, List.drop_left]

theorem trimStart_of_head {text : List Char} (h : ∀ c ∈ text.head?, Text.isBlank c = false) :
    Text.trimStart text = text := by
  cases text with
  | nil => rfl
  | cons c text => rw [Text.trimStart, List.dropWhile_cons, h c rfl]; rfl

theorem isBlank_of_isDigit {c : Char} (h : c.isDigit = true) : Text.isBlank c = false := by
  have hrange : 48 ≤ c.toNat ∧ c.toNat ≤ 57 := Char.isDigit_iff_toNat.1 h
  simp only [Text.isBlank]
  grind

theorem trimStart_digits (hdigits : ∀ c ∈ digits, c.isDigit = true) (hne : digits ≠ []) :
    Text.trimStart (digits ++ rest) = digits ++ rest := by
  obtain ⟨c, more, rfl⟩ := List.exists_cons_of_ne_nil hne
  refine trimStart_of_head fun d hd => ?_
  obtain rfl := Option.some.inj hd
  exact isBlank_of_isDigit (hdigits _ (List.mem_cons_self ..))

/-- A padded number of its width is read as a field. -/
theorem field_padded {low high : Nat} (hlow : low ≤ n) (hhigh : n ≤ high) (h : n < 100) :
    field low high (padded 2 n ++ rest) = .ok (n, rest) := by
  have hlength : (padded 2 n).length = 2 := length_padded h (by decide)
  unfold field
  rw [trimStart_digits (isDigit_padded 2 n) (padded_ne_nil 2 n),
    number_padded (Nat.le_of_eq hlength) (Or.inl hlength) (by omega)]
  simp only [bind, Except.bind]
  rw [if_pos ⟨hlow, hhigh⟩]
  rfl

theorem separator_cons {c : Char} (h : Text.isBlank c = false) :
    separator c (c :: rest) = .ok ((), rest) := by
  have htrim : Text.trimStart (c :: rest) = c :: rest :=
    trimStart_of_head fun d hd => by obtain rfl := Option.some.inj hd; exact h
  unfold separator
  rw [htrim]
  simp

/-- What begins with digits does not begin with another character. -/
theorem append_ne_cons {c : Char} {text : List Char} (hdigits : ∀ c ∈ digits, c.isDigit = true)
    (hne : digits ≠ []) (hc : c.isDigit = false) : digits ++ rest ≠ c :: text := by
  obtain ⟨d, more, rfl⟩ := List.exists_cons_of_ne_nil hne
  rintro h
  obtain ⟨rfl, -⟩ := List.cons.inj h
  rw [hdigits _ (List.mem_cons_self ..)] at hc
  cases hc

theorem year_text {y : Int} (h : firstYear ≤ y ∧ y ≤ lastYear)
    (hrest : ∀ c ∈ rest.head?, c.isDigit = false) :
    year (yearText y ++ rest) = .ok (y, rest) := by
  unfold firstYear lastYear at h
  have hne := padded_ne_nil 4 y.toNat
  have hbounds : -2147483648 ≤ y ∧ y < 2147483648 := by omega
  unfold yearText
  split
  case isTrue hfour =>
    have hlength : (padded 4 y.toNat).length = 4 := length_padded (show _ < 10000 by omega) (by decide)
    have hnumber : number 4 (padded 4 y.toNat ++ rest) = .ok (y.toNat, rest) :=
      number_padded (Nat.le_of_eq hlength) (Or.inl hlength) (by omega)
    unfold year
    rw [trimStart_digits (isDigit_padded 4 y.toNat) (padded_ne_nil 4 y.toNat)]
    split
    case h_1 digits hsign => exact absurd hsign (append_ne_cons (isDigit_padded _ _) hne rfl)
    case h_2 digits hsign => exact absurd hsign (append_ne_cons (isDigit_padded _ _) hne rfl)
    case h_3 =>
      simp only [hnumber, Except.map, bind, Except.bind, Int.toNat_of_nonneg hfour.1]
      rw [if_pos hbounds]
      rfl
  case isFalse hsigned =>
    have hnumber : number (padded 4 y.natAbs ++ rest).length (padded 4 y.natAbs ++ rest)
        = .ok (y.natAbs, rest) :=
      number_padded (by simp) (Or.inr hrest) (by omega)
    by_cases hneg : y < 0
    · unfold year
      rw [if_pos hneg, List.cons_append, trimStart_of_head fun c hc => by obtain rfl := Option.some.inj hc; rfl]
      simp only [hnumber, Except.map, bind, Except.bind]
      have hvalue : -(y.natAbs : Int) = y := by omega
      rw [hvalue, if_pos hbounds]
      rfl
    · unfold year
      rw [if_neg hneg, List.cons_append, trimStart_of_head fun c hc => by obtain rfl := Option.some.inj hc; rfl]
      simp only [hnumber, Except.map, bind, Except.bind]
      have hvalue : (y.natAbs : Int) = y := by omega
      rw [hvalue, if_pos hbounds]
      rfl

theorem fraction_padded {k : Nat} (hk : 0 < k) (hle : k ≤ 9) (h : n < Nat.pow 10 k)
    {nanos : Nat} (hnanos : n * Nat.pow 10 (9 - k) = nanos) :
    fraction ('.' :: padded k n ++ ['Z']) = .ok (nanos, ['Z']) := by
  have hlength : (padded k n).length = k := length_padded h hk
  have hsmall : n < 1000000000 := Nat.lt_of_lt_of_le h (Nat.pow_le_pow_right (by decide) hle)
  have hnumber : number 9 (padded k n ++ ['Z']) = .ok (n, ['Z']) :=
    number_padded (by omega) (Or.inr fun c hc => by obtain rfl := Option.some.inj hc; rfl) (by omega)
  have hcount : (padded k n ++ ['Z']).length - ['Z'].length = k := by simp [hlength]
  rw [List.cons_append, fraction, hnumber]
  simp only [bind, Except.bind, hcount, hnanos]
  rfl

theorem fraction_text {nanos : Nat} (h : nanos < 1000000000) :
    fraction (fractionText nanos ++ ['Z']) = .ok (nanos, ['Z']) := by
  unfold fractionText
  split
  case isTrue hzero => rw [hzero]; rfl
  split
  case isTrue hmillis =>
    exact fraction_padded (by decide) (by decide) (show nanos / 1000000 < 1000 by omega)
      (Nat.div_mul_cancel (Nat.dvd_of_mod_eq_zero hmillis))
  split
  case isTrue hmicros =>
    exact fraction_padded (by decide) (by decide) (show nanos / 1000 < 1000000 by omega)
      (Nat.div_mul_cancel (Nat.dvd_of_mod_eq_zero hmicros))
  case isFalse =>
    exact fraction_padded (by decide) (by decide) h (Nat.mul_one nanos)

theorem field_eq_ok {low high : Nat} {text : List Char}
    (h : field low high text = .ok (n, rest)) : low ≤ n ∧ n ≤ high := by
  unfold field at h
  obtain ⟨⟨m, rest⟩, -, h⟩ := Decode.bind_eq_ok h
  dsimp only at h
  split at h
  case isTrue hbounds => cases h; exact hbounds
  case isFalse => cases h

/-- What has been read of a number, and how much of it the number can be. -/
theorem number_eq_ok {text : List Char} (h : number width text = .ok (n, rest)) :
    text.length - rest.length ≤ width ∧ n < Nat.pow 10 (text.length - rest.length) := by
  unfold number at h
  split at h
  case h_1 => cases h
  case h_2 c more =>
    split at h
    case isTrue => cases h
    dsimp only at h
    split at h
    case isFalse => cases h
    case isTrue =>
      obtain ⟨rfl, rfl⟩ := Prod.mk.inj (Except.ok.inj h)
      have hprefix := (List.takeWhile_prefix Char.isDigit (l := (c :: more).take width)).length_le
      rw [List.length_take] at hprefix
      rw [List.length_drop, Nat.sub_sub_self (by omega)]
      exact ⟨by omega, Decimal.ofDigits_lt fun d hd => List.mem_takeWhile_imp hd⟩

theorem fraction_lt {text : List Char} (h : fraction text = .ok (n, rest)) : n < 1000000000 := by
  unfold fraction at h
  split at h
  case h_2 =>
    obtain ⟨rfl, -⟩ := Prod.mk.inj (Except.ok.inj h)
    decide
  case h_1 text =>
    obtain ⟨⟨m, rest⟩, hnumber, h⟩ := Decode.bind_eq_ok h
    obtain ⟨rfl, -⟩ := Prod.mk.inj (Except.ok.inj h)
    obtain ⟨hcount, hlt⟩ := number_eq_ok hnumber
    calc m * Nat.pow 10 (9 - (text.length - rest.length))
      _ < Nat.pow 10 (text.length - rest.length) * Nat.pow 10 (9 - (text.length - rest.length)) :=
        Nat.mul_lt_mul_of_pos_right hlt (Nat.pow_pos (by decide))
      _ = Nat.pow 10 (text.length - rest.length + (9 - (text.length - rest.length))) :=
        (Nat.pow_add ..).symm
      _ = Nat.pow 10 9 := by rw [Nat.add_sub_cancel' hcount]

end Reader

theorem ofLocal_zero {m : Moment} (h : m.Proper) : m.ofLocal 0 = m := by
  obtain ⟨date, hour, minute, second, nanos⟩ := m
  obtain ⟨-, hhour, hminute, -, -⟩ := h
  dsimp only at hhour hminute
  have hearlier : ¬ ((hour : Int) * 60 + minute - 0 < 0) := by omega
  have hlater : ¬ (24 * 60 ≤ (hour : Int) * 60 + minute - 0) := by omega
  simp only [ofLocal, if_neg hearlier, if_neg hlater, Moment.mk.injEq, true_and, and_true]
  omega

theorem daysInMonth_le (year : Int) (month : Nat) : daysInMonth year month ≤ 31 := by
  unfold daysInMonth
  split_ifs <;> decide

/-- **A proper moment is read back from its text.** -/
theorem read_text {m : Moment} (h : m.Proper) : read m.text = .ok m := by
  have hofLocal := ofLocal_zero h
  obtain ⟨⟨y, month, day⟩, hour, minute, second, nanos⟩ := m
  obtain ⟨hdate, hhour, hminute, hsecond, hnanos⟩ := h
  dsimp only at hdate hhour hminute hsecond hnanos
  have hvalid := hdate
  simp only [Date.valid, Bool.and_eq_true, decide_eq_true_eq] at hvalid
  obtain ⟨⟨⟨⟨hyear, hmonth⟩, hmonth'⟩, hday⟩, hday'⟩ := hvalid
  have hdays := daysInMonth_le y month
  -- a leap second is written as the second 60
  obtain ⟨shown, fraction, hshown, hfraction, hsecond', hnanos', htext⟩ :
      ∃ shown fraction : Nat, shown ≤ 60 ∧ fraction < 1000000000 ∧ min shown 59 = second ∧
        (if shown = 60 then fraction + 1000000000 else fraction) = nanos ∧
        (text ⟨⟨y, month, day⟩, hour, minute, second, nanos⟩).toList =
          yearText y ++ '-' :: (padded 2 month ++ '-' :: (padded 2 day ++ 'T' ::
            (padded 2 hour ++ ':' :: (padded 2 minute ++ ':' ::
              (padded 2 shown ++ (fractionText fraction ++ ['Z'])))))) := by
    by_cases hleap : 1000000000 ≤ nanos
    · refine ⟨second + 1, nanos - 1000000000, by omega, by omega, by omega, ?_, ?_⟩
      · rw [if_pos (by omega)]
        omega
      · simp only [text, if_pos hleap, String.toList_ofList, List.append_assoc, List.cons_append]
    · refine ⟨second, nanos, by omega, by omega, by omega, if_neg (by omega), ?_⟩
      simp only [text, if_neg hleap, String.toList_ofList, List.append_assoc, List.cons_append]
  have hdash : ∀ c ∈ List.head? ('-' :: (padded 2 month ++ '-' :: (padded 2 day ++ 'T' ::
      (padded 2 hour ++ ':' :: (padded 2 minute ++ ':' ::
        (padded 2 shown ++ (fractionText fraction ++ ['Z'])))))) ), c.isDigit = false :=
    fun c hc => by obtain rfl := Option.some.inj hc; rfl
  unfold read
  rw [htext, Reader.year_text hyear hdash]
  simp only [bind, Except.bind, Reader.separator_cons (show Text.isBlank '-' = false from rfl),
    Reader.separator_cons (show Text.isBlank ':' = false from rfl),
    Reader.field_padded hmonth hmonth' (by omega), Reader.field_padded hday (show day ≤ 31 by omega) (by omega),
    Reader.field_padded (Nat.zero_le hour) (show hour ≤ 23 by omega) (by omega),
    Reader.field_padded (Nat.zero_le minute) (show minute ≤ 59 by omega) (by omega),
    Reader.field_padded (Nat.zero_le shown) hshown (by omega), Reader.fraction_text hfraction]
  have hoffset : Reader.offset (Text.trimStart ['Z']) = .ok (0, []) := rfl
  have hblank : (Text.trimStart []).isEmpty = true := rfl
  simp only [hoffset, hsecond', hnanos', hofLocal, hblank, hdate, Bool.not_true, Bool.false_eq_true,
    if_false, if_true, Int.natAbs_zero]
  rfl

/-- The moment that a clock with an offset shows has a time of day. -/
theorem proper_ofLocal {m : Moment} {offset : Int} (hsecond : m.second < 60)
    (hnanos : m.nanos < 1000000000 ∨ m.second = 59 ∧ m.nanos < 2000000000)
    (hvalid : (m.ofLocal offset).date.valid = true) : (m.ofLocal offset).Proper := by
  refine ⟨hvalid, ?_, ?_, hsecond, hnanos⟩ <;> dsimp only [ofLocal] <;> omega

/-- Every moment that is read is proper. -/
theorem proper_of_read {text : String} {m : Moment} (h : read text = .ok m) : m.Proper := by
  unfold read at h
  obtain ⟨⟨year, rest⟩, -, h⟩ := Decode.bind_eq_ok h
  obtain ⟨⟨_, rest⟩, -, h⟩ := Decode.bind_eq_ok h
  obtain ⟨⟨month, rest⟩, -, h⟩ := Decode.bind_eq_ok h
  obtain ⟨⟨_, rest⟩, -, h⟩ := Decode.bind_eq_ok h
  obtain ⟨⟨day, rest⟩, -, h⟩ := Decode.bind_eq_ok h
  dsimp only at h
  split at h
  case h_4 | h_5 => cases h
  -- the marks that may stand between a date and a time of day are read alike
  all_goals
    obtain ⟨rest, -, h⟩ := Decode.bind_eq_ok h
    obtain ⟨⟨hour, rest⟩, -, h⟩ := Decode.bind_eq_ok h
    obtain ⟨⟨_, rest⟩, -, h⟩ := Decode.bind_eq_ok h
    obtain ⟨⟨minute, rest⟩, -, h⟩ := Decode.bind_eq_ok h
    obtain ⟨⟨_, rest⟩, -, h⟩ := Decode.bind_eq_ok h
    obtain ⟨⟨second, rest⟩, hsecond, h⟩ := Decode.bind_eq_ok h
    obtain ⟨⟨nanos, rest⟩, hnanos, h⟩ := Decode.bind_eq_ok h
    obtain ⟨⟨offset, rest⟩, -, h⟩ := Decode.bind_eq_ok h
    clear * - h hsecond hnanos
    dsimp only at h
    split at h
    case isTrue => cases h
    split at h
    case isTrue => cases h
    split at h
    case isTrue => cases h
    have hle := (Reader.field_eq_ok hsecond).2
    have hlt := Reader.fraction_lt hnanos
    have hshown : (if second = 60 then nanos + 1000000000 else nanos) < 1000000000 ∨
        min second 59 = 59 ∧ (if second = 60 then nanos + 1000000000 else nanos) < 2000000000 := by
      split <;> omega
    generalize (if second = 60 then nanos + 1000000000 else nanos) = shown at h hshown
    split at h
    case isFalse => cases h
    case isTrue hvalid =>
      obtain rfl := Except.ok.inj h
      exact proper_ofLocal (by dsimp only; omega) hshown hvalid

end Flowgraph.Moment
