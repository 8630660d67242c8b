import Flowgraph.Proofs.Decimal.ReadBack
import Flowgraph.Yaml.Printer

/-!
# The meaning of numbers as scalars

The text of a number is made of the characters of numbers, so it is none of the words that a plain
scalar may be. An integer shows digits without a zero in front (`meaning_integer`); a float shows a
point or an exponent, which no integer does (`meaning_float`).
-/

set_option autoImplicit false

namespace Flowgraph

namespace Text

theorem hexValue?_of_isDigit {c : Char} (h : c.isDigit = true) :
    hexValue? c = some (Decimal.digitValue c) := by
  simp only [Char.isDigit, Bool.and_eq_true, decide_eq_true_eq] at h
  exact if_pos h

theorem ofDigits?_concat (base : Nat) (digits : List Char) (c : Char) :
    ofDigits? base (digits ++ [c]) = (ofDigits? base digits).bind fun n =>
      (hexValue? c).bind fun d => if d < base then some (base * n + d) else none := by
  unfold ofDigits?
  simp only [List.foldlM_append, List.foldlM_cons, List.foldlM_nil, bind, pure,
    Option.bind_fun_some]

theorem ofDigits?_ten {digits : List Char} (h : ∀ c ∈ digits, c.isDigit = true) :
    ofDigits? 10 digits = some (Decimal.ofDigits digits) := by
  induction digits using List.reverseRecOn with
  | nil => rfl
  | append_singleton digits c ih =>
    have hdigit := h c (by simp)
    have hvalue : Decimal.digitValue c < 10 := by
      have hle : c.toNat ≤ 57 := (Char.isDigit_iff_toNat.1 hdigit).2
      exact Nat.lt_succ_of_le (Nat.sub_le_sub_right hle 48)
    rw [ofDigits?_concat, ih fun d hd => h d (List.mem_append_left _ hd),
      hexValue?_of_isDigit hdigit, Decimal.ofDigits_concat]
    exact if_pos hvalue

/-- A character that is no digit of the base spoils a number. -/
theorem ofDigits?_eq_none {base : Nat} {digits : List Char} {c : Char} (hc : c ∈ digits)
    (h : ∀ d ∈ hexValue? c, base ≤ d) : ofDigits? base digits = none := by
  induction digits using List.reverseRecOn with
  | nil => cases hc
  | append_singleton digits last ih =>
    rw [ofDigits?_concat]
    rcases List.mem_append.1 hc with hmem | hlast
    · rw [ih hmem]
      rfl
    · obtain rfl := List.mem_singleton.1 hlast
      cases hvalue : hexValue? c with
      | none => cases ofDigits? base digits <;> rfl
      | some d =>
        have hge : ¬d < base := Nat.not_lt.2 (h d hvalue)
        cases ofDigits? base digits <;> simp [hge]

end Text

namespace Decimal.Layout

/-- A layout with points for whole numbers shows a point or an exponent in every number. -/
theorem exists_mark (l : Layout) (h : l.point = true) (d : Decimal) :
    ∃ c ∈ l.writeDecimal d, c = '.' ∨ c = 'e' := by
  unfold writeDecimal
  dsimp only
  split
  · split
    · exact ⟨'.', by simp, Or.inl rfl⟩
    · split
      · exact ⟨'.', by simp, Or.inl rfl⟩
      · exact ⟨'.', by simp, Or.inl rfl⟩
  · exact ⟨'e', by simp, Or.inr rfl⟩

end Decimal.Layout

namespace Yaml.Scalar

open Decimal.Layout (IsNumeral)

variable {text : List Char}

theorem isNumeral_integerText (n : Int) : ∀ c ∈ Json.Number.integerText n, IsNumeral c := by
  refine List.forall_mem_append.2 ⟨?_, Decimal.Layout.isNumeral_digits _⟩
  split <;> simp [IsNumeral]

/-- What is made of the characters of numbers is no word. -/
theorem ofList_ne (h : ∀ c ∈ text, IsNumeral c) {word : String}
    (hword : word.toList.all (fun c => decide (IsNumeral c)) = false) :
    String.ofList text ≠ word := by
  rintro rfl
  rw [String.toList_ofList, List.all_eq_false] at hword
  obtain ⟨c, hc, hletter⟩ := hword
  exact hletter (decide_eq_true (h c hc))

theorem contains_eq_false (h : ∀ c ∈ text, IsNumeral c) {words : List String}
    (hwords : ∀ word ∈ words, word.toList.all (fun c => decide (IsNumeral c)) = false) :
    words.contains (String.ofList text) = false := by
  rw [List.contains_eq_mem, decide_eq_false_iff_not]
  exact fun hmem => ofList_ne h (hwords _ hmem) rfl

/-- The number that a text made of the characters of numbers denotes. -/
theorem meaning_of_numeral (h : ∀ c ∈ text, IsNumeral c) (hne : text ≠ []) :
    meaning (String.ofList text) = match integer? text with
      | some n => .integer n
      | none => if isPadded text then .text else (float? text).getD .text := by
  have hempty : (String.ofList text).isEmpty = false := by
    rw [← Bool.not_eq_true, String.isEmpty_iff, String.ofList_eq_empty_iff]
    exact hne
  have hnull : isNull (String.ofList text) = false :=
    contains_eq_false h (by decide)
  have hbool : bool? (String.ofList text) = none := by
    unfold bool?
    rw [contains_eq_false h (by decide), contains_eq_false h (by decide)]
    rfl
  unfold meaning
  rw [hempty, hnull, hbool, String.toList_ofList]
  rfl

theorem based?_eq_none (h : ∀ c ∈ text, IsNumeral c) : based? text = none := by
  unfold based?
  split
  case h_1 => exact absurd (h 'x' (by simp)) (by decide)
  case h_2 => exact absurd (h 'o' (by simp)) (by decide)
  case h_3 => exact absurd (h 'b' (by simp)) (by decide)
  case h_4 => rfl

theorem isSigned_of_digit (h : ∃ c ∈ text.head?, c.isDigit = true) : isSigned text = false := by
  obtain ⟨c, hc, hdigit⟩ := h
  obtain ⟨text, rfl⟩ := List.head?_eq_some_iff.1 hc
  simp only [isSigned, List.head?_cons, Option.any_some, Bool.or_eq_false_iff, beq_eq_false_iff_ne]
  constructor <;> rintro rfl <;> cases hdigit

theorem unsigned_of_head (h : ∃ c ∈ text.head?, c ≠ '+') : unsigned text = text := by
  obtain ⟨c, hc, hother⟩ := h
  unfold unsigned
  split
  case h_1 => exact absurd (Option.some.inj hc).symm hother
  case h_2 => rfl

theorem unsigned_of_digit (h : ∃ c ∈ text.head?, c.isDigit = true) : unsigned text = text :=
  unsigned_of_head (h.imp fun c ⟨hc, hdigit⟩ => ⟨hc, by rintro rfl; cases hdigit⟩)

theorem isPadded_minus (h : ∃ c ∈ text.head?, c.isDigit = true) :
    isPadded ('-' :: text) = isPadded text := by
  have hminus : isSigned ('-' :: text) = true := rfl
  unfold isPadded
  rw [isSigned_of_digit h, hminus]
  rfl

/-- Digits are written without a zero in front. -/
theorem isPadded_digits (n : Nat) : isPadded (Nat.toDigits 10 n) = false := by
  by_cases hzero : n = 0
  · rw [hzero]
    rfl
  · have hne : Nat.toDigits 10 n ≠ [] := Nat.toDigits_ne_nil
    unfold isPadded
    have hhead : ∃ c ∈ (Nat.toDigits 10 n).head?, c.isDigit = true :=
      ⟨_, List.head?_eq_some_head hne, Decimal.isDigit_of_mem (List.head_mem hne)⟩
    rw [isSigned_of_digit hhead]
    split
    case h_1 heq => exact absurd (congrArg List.head? heq) (Decimal.head?_toDigits hzero)
    case h_2 => rfl

theorem isPadded_of_mark (h : ∃ c ∈ text.head?, c.isDigit = true)
    (hmark : ∃ c ∈ text, c.isDigit = false) : isPadded text = false := by
  obtain ⟨c, hc, hother⟩ := hmark
  unfold isPadded
  rw [isSigned_of_digit h]
  split
  case h_2 => rfl
  case h_1 d rest heq =>
    simp only [Bool.false_eq_true, if_false] at heq
    rw [Bool.eq_false_iff]
    intro hall
    rcases List.mem_cons.1 (heq ▸ hc) with rfl | hmem
    · cases hother
    · rw [List.all_eq_true.1 hall c hmem] at hother
      cases hother

theorem magnitude?_digits (n : Nat) : magnitude? 10 (Nat.toDigits 10 n) = some n := by
  have hne : Nat.toDigits 10 n ≠ [] := Nat.toDigits_ne_nil
  unfold magnitude?
  rw [List.isEmpty_eq_false_iff.2 hne, Text.ofDigits?_ten fun _ => Decimal.isDigit_of_mem,
    Decimal.ofDigits_toDigits]
  rfl

theorem magnitude?_of_mark (hmark : ∃ c ∈ text, c = '.' ∨ c = 'e') : magnitude? 10 text = none := by
  obtain ⟨c, hc, hvalue⟩ := hmark
  unfold magnitude?
  rw [Text.ofDigits?_eq_none hc (by rcases hvalue with rfl | rfl <;> decide)]
  split <;> rfl

theorem integer?_minus (h : ∃ c ∈ text.head?, c.isDigit = true)
    (hnumeral : ∀ c ∈ text, IsNumeral c) :
    integer? ('-' :: text) = (if isPadded text then none else magnitude? 10 text).bind fun n =>
      if n ≤ Nat.pow 2 127 then some (-(n : Int)) else none := by
  rw [integer?, isPadded_minus h]
  simp only [based?_eq_none hnumeral, Option.none_or]
  cases (if isPadded text then none else magnitude? 10 text) <;> rfl

theorem integer?_of_digit (h : ∃ c ∈ text.head?, c.isDigit = true)
    (hnumeral : ∀ c ∈ text, IsNumeral c) :
    integer? text = (if isPadded text then none else magnitude? 10 text).bind fun n =>
      if n < Nat.pow 2 128 then some (n : Int) else none := by
  unfold integer?
  split
  case h_1 =>
    obtain ⟨c, hc, hdigit⟩ := h
    obtain rfl := Option.some.inj hc
    cases hdigit
  case h_2 =>
    dsimp only
    rw [unsigned_of_digit h, based?_eq_none hnumeral, Option.none_or]
    cases (if isPadded text then none else magnitude? 10 text) <;> rfl

/-- **The text of an integer means the integer.** -/
theorem meaning_integer {n : Int} (h : Json.leastInteger ≤ n ∧ n ≤ Json.greatestInteger) :
    meaning (String.ofList (Json.Number.integerText n)) = .integer n := by
  have hdigits := Decimal.Layout.isNumeral_digits n.natAbs
  have hne : Nat.toDigits 10 n.natAbs ≠ [] := Nat.toDigits_ne_nil
  have hhead : ∃ c ∈ (Nat.toDigits 10 n.natAbs).head?, c.isDigit = true :=
    ⟨_, List.head?_eq_some_head hne, Decimal.isDigit_of_mem (List.head_mem hne)⟩
  have hread : integer? (Json.Number.integerText n) = some n := by
    unfold Json.leastInteger Json.greatestInteger at h
    unfold Json.Number.integerText
    split
    case isTrue hneg =>
      have hsmall : n.natAbs ≤ Nat.pow 2 127 := by
        have hpower : (9223372036854775808 : Nat) ≤ Nat.pow 2 127 := by decide
        omega
      rw [List.singleton_append, integer?_minus hhead hdigits, isPadded_digits, magnitude?_digits]
      simp only [Bool.false_eq_true, if_false, Option.bind_some, if_pos hsmall, Option.some.injEq]
      omega
    case isFalse hpos =>
      have hsmall : n.natAbs < Nat.pow 2 128 := by
        have hpower : (18446744073709551615 : Nat) < Nat.pow 2 128 := by decide
        omega
      rw [List.nil_append, integer?_of_digit hhead hdigits, isPadded_digits, magnitude?_digits]
      simp only [Bool.false_eq_true, if_false, Option.bind_some, if_pos hsmall, Option.some.injEq]
      omega
  rw [meaning_of_numeral (isNumeral_integerText n) (List.append_ne_nil_of_right_ne_nil _ hne),
    hread]

/-- **The text of a float means the float.** -/
theorem meaning_float (x : Binary64) :
    meaning (String.ofList (Printer.layout.write x)) = .float x := by
  have hnumeral := Decimal.Layout.isNumeral_write Printer.layout x
  have hdigits := Decimal.Layout.isNumeral_writeDecimal Printer.layout x.shortest
  have hhead := Decimal.Layout.head?_writeDecimal Printer.layout x.shortest
  have hmark := Decimal.Layout.exists_mark Printer.layout rfl x.shortest
  have hpadded : isPadded (Printer.layout.writeDecimal x.shortest) = false :=
    isPadded_of_mark hhead (hmark.imp fun c ⟨hc, hvalue⟩ =>
      ⟨hc, by rcases hvalue with rfl | rfl <;> rfl⟩)
  have hfirst := Decimal.Layout.head?_write Printer.layout x
  have hread : float? (Printer.layout.write x) = some (.float x) := by
    have hunsigned : unsigned (Printer.layout.write x) = Printer.layout.write x :=
      unsigned_of_head (by
        obtain ⟨c, hc, rfl | hdigit⟩ := hfirst
        · exact ⟨'-', hc, by decide⟩
        · exact ⟨c, hc, by rintro rfl; cases hdigit⟩)
    have hplus : (Printer.layout.write x).head? ≠ some '+' := by
      obtain ⟨c, hc, hvalue⟩ := hfirst
      rintro heq
      obtain rfl : '+' = c := Option.some.inj (heq.symm.trans hc)
      rcases hvalue with hvalue | hvalue <;> cases hvalue
    have hinfinite : isInfinite (Printer.layout.write x) = false := by
      unfold isInfinite
      rw [hunsigned, contains_eq_false hnumeral (by decide),
        contains_eq_false hnumeral (by decide)]
      rfl
    unfold float?
    rw [hinfinite, hunsigned, Decimal.read?_write]
    simp only [Bool.false_eq_true, if_false, hplus, false_and]
  have hne : Printer.layout.write x ≠ [] := by
    obtain ⟨c, hc, -⟩ := hfirst
    rintro heq
    rw [heq] at hc
    cases hc
  have hpart : integer? (Printer.layout.write x) = none ∧
      isPadded (Printer.layout.write x) = false := by
    unfold Decimal.Layout.write
    split
    · rw [List.singleton_append, integer?_minus hhead hdigits, isPadded_minus hhead, hpadded,
        magnitude?_of_mark hmark]
      exact ⟨rfl, rfl⟩
    · rw [List.nil_append, integer?_of_digit hhead hdigits, hpadded, magnitude?_of_mark hmark]
      exact ⟨rfl, rfl⟩
  rw [meaning_of_numeral hnumeral hne, hpart.1, hpart.2, hread]
  rfl

end Yaml.Scalar

end Flowgraph
