import Flowgraph.Json.Printer
import Flowgraph.Json.Reader
import Mathlib.Data.List.Induction
import Mathlib.Data.List.TakeWhile

/-!
# Numbers in JSON text are read back

An integer is written as the literal that has it as its value (`literal_integerText`,
`ofLiteral?_integer`). Whether a binary number is read back depends on its digits, since literals
are read the quick way; `Binary64.ReadsBack` says that it is. A literal ends where a text goes on
after a value (`Follows`), so what is read of a number does not depend on the text around it
(`literal?_append`).
-/

set_option autoImplicit false

namespace Flowgraph

/-! ### Digits -/

namespace Decimal

theorem ofDigits_toDigits (n : Nat) : ofDigits (Nat.toDigits 10 n) = n :=
  Nat.ofDigitChars_toDigits (by decide) (by decide)

theorem ofDigits_concat (digits : List Char) (d : Char) :
    ofDigits (digits ++ [d]) = 10 * ofDigits digits + digitValue d := by
  simp [ofDigits]

theorem ofDigits_lt {digits : List Char} (h : ∀ c ∈ digits, c.isDigit = true) :
    ofDigits digits < Nat.pow 10 digits.length := by
  induction digits using List.reverseRecOn with
  | nil => decide
  | append_singleton digits d ih =>
    have hdigits := ih fun c hc => h c (List.mem_append_left _ hc)
    have hd : d.toNat ≤ 57 := (Char.isDigit_iff_toNat.1 (h d (by simp))).2
    have hvalue : digitValue d ≤ 9 := Nat.sub_le_sub_right hd 48
    have hpow : Nat.pow 10 (digits.length + 1) = Nat.pow 10 digits.length * 10 := rfl
    rw [ofDigits_concat, List.length_append, List.length_singleton, hpow]
    omega

theorem isDigit_of_mem {n : Nat} {c : Char} (h : c ∈ Nat.toDigits 10 n) : c.isDigit = true :=
  Nat.isDigit_of_mem_toDigits (by decide) (by decide) h

/-- The digits of a number other than zero do not begin with a zero. -/
theorem head?_toDigits {n : Nat} (h : n ≠ 0) : (Nat.toDigits 10 n).head? ≠ some '0' := by
  induction n using Nat.strongRecOn with
  | ind n ih =>
    rw [Nat.toDigits_eq_if (by decide)]
    split
    case isTrue hlt => simpa using h
    case isFalse hge =>
      rw [List.head?_append, Option.or_of_isSome (by
        rw [List.isSome_head?]
        simp)]
      exact ih (n / 10) (Nat.div_lt_self (by omega) (by decide)) (by omega)

end Decimal

namespace Json

/-! ### Where a number ends -/

/-- What a text goes on with after a value: nothing, a comma or a closing bracket. -/
def Follows (rest : List Char) : Prop := ∀ c ∈ rest.head?, c = ',' ∨ c = ']' ∨ c = '}'

theorem follows_nil : Follows [] := by simp [Follows]

namespace Reader

variable {text rest : List Char}

theorem takeWhile_digits_append (h : Follows rest) :
    (text ++ rest).takeWhile Char.isDigit = text.takeWhile Char.isDigit := by
  induction text with
  | nil =>
    cases rest with
    | nil => rfl
    | cons c rest => rcases h c rfl with rfl | rfl | rfl <;> rfl
  | cons c text ih => simp only [List.cons_append, List.takeWhile_cons, ih]

theorem dropWhile_digits_append (h : Follows rest) :
    (text ++ rest).dropWhile Char.isDigit = text.dropWhile Char.isDigit ++ rest := by
  induction text with
  | nil =>
    cases rest with
    | nil => rfl
    | cons c rest => rcases h c rfl with rfl | rfl | rfl <;> rfl
  | cons c text ih =>
    simp only [List.cons_append, List.dropWhile_cons, ih]
    split <;> rfl

theorem splitSign_append (h : text ≠ []) : Decimal.splitSign (text ++ rest) =
    ((Decimal.splitSign text).1, (Decimal.splitSign text).2 ++ rest) := by
  cases text with
  | nil => exact absurd rfl h
  | cons c text =>
    rw [List.cons_append]
    unfold Decimal.splitSign
    split <;> split <;> simp_all

theorem exponent?_follows (h : Follows rest) : exponent? rest = some (none, rest) := by
  cases rest with
  | nil => rfl
  | cons c rest => rcases h c rfl with rfl | rfl | rfl <;> rfl

theorem exponent?_append {e : Option Int} (hread : exponent? text = some (e, []))
    (h : Follows rest) : exponent? (text ++ rest) = some (e, rest) := by
  cases text with
  | nil =>
    obtain rfl : none = e := by simpa [exponent?] using hread
    exact exponent?_follows h
  | cons c text =>
    rw [List.cons_append]
    simp only [exponent?] at hread ⊢
    split at hread
    case isFalse => simp at hread
    case isTrue hmark =>
      rw [if_pos hmark]
      have hne : text ≠ [] := by rintro rfl; simp [Decimal.splitSign] at hread
      rw [splitSign_append hne]
      dsimp only at hread ⊢
      rw [takeWhile_digits_append h, dropWhile_digits_append h]
      split at hread
      · simp at hread
      · rename_i hdigits
        rw [if_neg hdigits]
        simp only [Option.some.injEq, Prod.mk.injEq] at hread ⊢
        exact ⟨hread.1, by rw [hread.2, List.nil_append]⟩

/-- A literal after its sign. -/
def magnitude? (negative : Bool) (text : List Char) : Option (Number.Literal × List Char) :=
  let whole := text.takeWhile Char.isDigit
  if whole.isEmpty || (whole.head? == some '0' && 1 < whole.length) then none
  else match text.dropWhile Char.isDigit with
    | '.' :: rest =>
      let fraction := rest.takeWhile Char.isDigit
      if fraction.isEmpty then none
      else (exponent? (rest.dropWhile Char.isDigit)).map fun e =>
        (⟨negative, whole, some fraction, e.1⟩, e.2)
    | rest => (exponent? rest).map fun e => (⟨negative, whole, none, e.1⟩, e.2)

theorem literal?_minus : literal? ('-' :: text) = magnitude? true text := rfl

theorem literal?_of_ne_minus (h : text.head? ≠ some '-') :
    literal? text = magnitude? false text := by
  unfold literal?
  split
  rename_i heq
  split at heq
  · exact absurd rfl h
  · cases heq
    rfl

theorem append_ne_point {after : List Char} (htext : ∀ after, text = '.' :: after → False)
    (h : Follows rest) : text ++ rest ≠ '.' :: after := by
  cases text with
  | nil =>
    rintro rfl
    simp [Follows] at h
  | cons c text =>
    rintro heq
    exact htext text (by rw [(List.cons.inj heq).1])

theorem magnitude?_append {negative : Bool} {l : Number.Literal}
    (hread : magnitude? negative text = some (l, [])) (h : Follows rest) :
    magnitude? negative (text ++ rest) = some (l, rest) := by
  unfold magnitude? at hread ⊢
  dsimp only at hread ⊢
  rw [takeWhile_digits_append h, dropWhile_digits_append h]
  split at hread
  · simp at hread
  rename_i hwhole
  rw [if_neg hwhole]
  split at hread
  case h_1 fraction hpoint =>
    rw [hpoint, List.cons_append]
    simp only
    rw [takeWhile_digits_append h, dropWhile_digits_append h]
    split at hread
    · simp at hread
    rename_i hfraction
    rw [if_neg hfraction]
    obtain ⟨⟨e, left⟩, he, hl⟩ := Option.map_eq_some_iff.1 hread
    obtain ⟨rfl, rfl⟩ := Prod.mk.inj hl
    rw [exponent?_append he h]
    rfl
  case h_2 hpoint =>
    obtain ⟨⟨e, left⟩, he, hl⟩ := Option.map_eq_some_iff.1 hread
    obtain ⟨rfl, rfl⟩ := Prod.mk.inj hl
    split
    case h_1 after heq => exact absurd heq (append_ne_point hpoint h)
    case h_2 =>
      rw [exponent?_append he h]
      rfl

/-- A literal is read the same in front of what follows a value. -/
theorem literal?_append {l : Number.Literal} (hread : literal? text = some (l, []))
    (h : Follows rest) : literal? (text ++ rest) = some (l, rest) := by
  cases text with
  | nil => simp [literal?] at hread
  | cons c text =>
    by_cases hc : c = '-'
    · subst hc
      rw [literal?_minus] at hread
      rw [List.cons_append, literal?_minus]
      exact magnitude?_append hread h
    · have hhead : ∀ tail : List Char, (c :: tail).head? ≠ some '-' := by simpa using hc
      rw [literal?_of_ne_minus (hhead _)] at hread
      rw [List.cons_append, literal?_of_ne_minus (hhead _)]
      exact magnitude?_append hread h

/-! What is left after a literal is the end of its text. -/

theorem suffix_of_exponent? {e : Option Int} (h : exponent? text = some (e, rest)) :
    rest <:+ text := by
  cases text with
  | nil =>
    obtain ⟨-, rfl⟩ : none = e ∧ [] = rest := by simpa [exponent?] using h
    exact List.suffix_refl _
  | cons c text =>
    simp only [exponent?] at h
    split at h
    case isFalse =>
      obtain ⟨-, rfl⟩ := Prod.mk.inj (Option.some.inj h)
      exact List.suffix_refl _
    case isTrue =>
      split at h
      · cases h
      · obtain ⟨-, rfl⟩ := Prod.mk.inj (Option.some.inj h)
        refine (List.dropWhile_suffix _).trans (List.IsSuffix.trans ?_ (List.suffix_cons c text))
        unfold Decimal.splitSign
        split <;> simp [List.suffix_cons]

theorem suffix_of_magnitude? {negative : Bool} {l : Number.Literal}
    (h : magnitude? negative text = some (l, rest)) : rest <:+ text := by
  have hdigits : text.dropWhile Char.isDigit <:+ text := List.dropWhile_suffix _
  unfold magnitude? at h
  dsimp only at h
  split at h
  · cases h
  split at h
  case h_1 fraction hpoint =>
    split at h
    · cases h
    obtain ⟨⟨e, left⟩, he, hl⟩ := Option.map_eq_some_iff.1 h
    obtain ⟨-, rfl⟩ := Prod.mk.inj hl
    rw [hpoint] at hdigits
    exact ((suffix_of_exponent? he).trans (List.dropWhile_suffix _)).trans
      ((List.suffix_cons _ _).trans hdigits)
  case h_2 =>
    obtain ⟨⟨e, left⟩, he, hl⟩ := Option.map_eq_some_iff.1 h
    obtain ⟨-, rfl⟩ := Prod.mk.inj hl
    exact (suffix_of_exponent? he).trans hdigits

theorem suffix_of_literal? {l : Number.Literal} (h : literal? text = some (l, rest)) :
    rest <:+ text := by
  by_cases hminus : text.head? = some '-'
  · obtain ⟨text, rfl⟩ := List.head?_eq_some_iff.1 hminus
    exact (suffix_of_magnitude? (literal?_minus ▸ h)).trans (List.suffix_cons _ _)
  · exact suffix_of_magnitude? (literal?_of_ne_minus hminus ▸ h)

end Reader

/-! ### Integers -/

namespace Number

theorem le_ofDigits (digits : List Char) (taken : Nat) :
    taken ≤ digits.foldl (fun n c => 10 * n + Decimal.digitValue c) taken := by
  induction digits generalizing taken with
  | nil => exact Nat.le_refl _
  | cons d digits ih =>
    have hrest := ih (10 * taken + Decimal.digitValue d)
    rw [List.foldl_cons]
    omega

theorem push?_of_lt (s : Scaled) {d : Char}
    (h : 10 * s.significand + Decimal.digitValue d < Nat.pow 2 64) :
    s.push? d = some (10 * s.significand + Decimal.digitValue d) := by
  unfold Scaled.push?
  exact if_pos h

/-- The digits of a number that fits are all taken. -/
theorem whole_eq {digits : List Char} {taken : Nat}
    (h : digits.foldl (fun n c => 10 * n + Decimal.digitValue c) taken < Nat.pow 2 64) :
    Scaled.whole ⟨taken, 0⟩ digits =
      ⟨digits.foldl (fun n c => 10 * n + Decimal.digitValue c) taken, 0⟩ := by
  induction digits generalizing taken with
  | nil => rfl
  | cons d digits ih =>
    rw [List.foldl_cons] at h ⊢
    have hnext : 10 * taken + Decimal.digitValue d < Nat.pow 2 64 :=
      Nat.lt_of_le_of_lt (le_ofDigits digits _) h
    rw [Scaled.whole, push?_of_lt ⟨taken, 0⟩ hnext]
    exact ih h

/-- The literal of an integer. -/
def literal (n : Int) : Literal := ⟨decide (n < 0), Nat.toDigits 10 n.natAbs, none, none⟩

theorem head?_integerText (n : Int) :
    ∃ c ∈ (integerText n).head?, c = '-' ∨ c.isDigit = true := by
  unfold integerText
  split
  · exact ⟨'-', rfl, Or.inl rfl⟩
  · obtain ⟨first, digits, hdigits⟩ := List.exists_cons_of_ne_nil
      (Nat.toDigits_ne_nil (n := n.natAbs) (b := 10))
    refine ⟨first, by rw [hdigits]; rfl, Or.inr ?_⟩
    exact Decimal.isDigit_of_mem (n := n.natAbs) (by simp [hdigits])

theorem literal?_integerText (n : Int) :
    Reader.literal? (integerText n) = some (literal n, []) := by
  have hall : ∀ c ∈ Nat.toDigits 10 n.natAbs, c.isDigit = true := fun _ => Decimal.isDigit_of_mem
  have hmagnitude (negative : Bool) : Reader.magnitude? negative (Nat.toDigits 10 n.natAbs) =
      some (⟨negative, Nat.toDigits 10 n.natAbs, none, none⟩, []) := by
    unfold Reader.magnitude?
    rw [List.takeWhile_eq_self_iff.2 hall, List.dropWhile_eq_nil_iff.2 hall]
    dsimp only
    rw [if_neg]
    · rfl
    · by_cases h : n.natAbs = 0
      · rw [h]
        decide
      · simp [Decimal.head?_toDigits h]
  unfold integerText literal
  split
  case isTrue h =>
    rw [List.singleton_append, Reader.literal?_minus, hmagnitude, decide_eq_true h]
  case isFalse h =>
    rw [List.nil_append, Reader.literal?_of_ne_minus, hmagnitude, decide_eq_false h]
    intro hminus
    exact absurd (hall '-' (List.mem_of_mem_head? hminus)) (by decide)

theorem ofLiteral?_literal {n : Int} (h : leastInteger ≤ n ∧ n ≤ greatestInteger) :
    ofLiteral? (literal n) = some (.integer n h) := by
  have hlt : n.natAbs < Nat.pow 2 64 := by
    have : Nat.pow 2 64 = 18446744073709551616 := by decide
    unfold leastInteger greatestInteger at h
    omega
  have hwhole : Scaled.whole ⟨0, 0⟩ (Nat.toDigits 10 n.natAbs) = ⟨n.natAbs, 0⟩ := by
    have hdigits := Decimal.ofDigits_toDigits n.natAbs
    unfold Decimal.ofDigits at hdigits
    rw [whole_eq (hdigits.symm ▸ hlt), hdigits]
  unfold ofLiteral? literal
  dsimp only
  rw [hwhole]
  dsimp only
  have hvalue : (if decide (n < 0) = true then -(n.natAbs : Int) else n.natAbs) = n := by
    by_cases hn : n < 0
    · rw [if_pos (decide_eq_true hn)]
      omega
    · rw [decide_eq_false hn, if_neg Bool.false_ne_true]
      omega
  have hzero : ¬((n < 0) ∧ n.natAbs = 0) := by omega
  rw [hvalue, if_pos ⟨rfl, by simpa using hzero, h.1⟩]
  have hclamp : max leastInteger (min n greatestInteger) = n := by omega
  simp only [ofInt, hclamp]

end Number

end Json

/-! ### The text of a number -/

namespace Decimal.Layout

/-- The characters that numbers are written with. -/
def IsNumeral (c : Char) : Prop := c.isDigit = true ∨ c = '-' ∨ c = '+' ∨ c = '.' ∨ c = 'e'

instance (c : Char) : Decidable (IsNumeral c) := inferInstanceAs (Decidable (_ ∨ _))

theorem isNumeral_digits (n : Nat) : ∀ c ∈ Nat.toDigits 10 n, IsNumeral c :=
  fun _ h => Or.inl (isDigit_of_mem h)

theorem isNumeral_zeros (n : Nat) : ∀ c ∈ List.replicate n '0', IsNumeral c :=
  fun c h => Or.inl (by rw [List.eq_of_mem_replicate h]; rfl)

theorem isNumeral_writeDecimal (l : Layout) (d : Decimal) :
    ∀ c ∈ l.writeDecimal d, IsNumeral c := by
  have hdigits := isNumeral_digits d.coefficient
  have hsign : ∀ c, c = '-' ∨ c = '+' ∨ c = '.' ∨ c = 'e' ∨ c = '0' → IsNumeral c := by
    rintro c (rfl | rfl | rfl | rfl | rfl) <;> simp [IsNumeral]
  unfold writeDecimal
  dsimp only
  split
  · split
    · have hpoint : ∀ c ∈ (if l.point then ['.', '0'] else []), IsNumeral c := by
        split <;> simp [hsign]
      exact List.forall_mem_append.2
        ⟨List.forall_mem_append.2 ⟨hdigits, isNumeral_zeros _⟩, hpoint⟩
    · split
      · refine List.forall_mem_append.2 ⟨fun c h => hdigits c (List.mem_of_mem_take h), ?_⟩
        exact List.forall_mem_cons.2
          ⟨hsign _ (by simp), fun c h => hdigits c (List.mem_of_mem_drop h)⟩
      · refine List.forall_mem_append.2 ⟨?_, hdigits⟩
        exact List.forall_mem_cons.2 ⟨hsign _ (by simp),
          List.forall_mem_cons.2 ⟨hsign _ (by simp), isNumeral_zeros _⟩⟩
  · refine List.forall_mem_append.2 ⟨List.forall_mem_append.2 ⟨?_, ?_⟩, isNumeral_digits _⟩
    · split
      case h_1 => exact List.forall_mem_nil _
      case h_2 heq => exact heq ▸ hdigits
      case h_3 heq =>
        obtain ⟨hfirst, hrest⟩ := List.forall_mem_cons.1 (heq ▸ hdigits)
        exact List.forall_mem_cons.2 ⟨hfirst, List.forall_mem_cons.2 ⟨hsign _ (by simp), hrest⟩⟩
    · refine List.forall_mem_cons.2 ⟨hsign _ (by simp), ?_⟩
      split
      · simp [hsign]
      · split <;> simp [hsign]

/-- Numbers are written with the characters of numbers, -/
theorem isNumeral_write (l : Layout) (x : Binary64) : ∀ c ∈ l.write x, IsNumeral c := by
  refine List.forall_mem_append.2 ⟨?_, isNumeral_writeDecimal l _⟩
  split <;> simp [IsNumeral]

theorem head?_writeDecimal (l : Layout) (d : Decimal) :
    ∃ c ∈ (l.writeDecimal d).head?, c.isDigit = true := by
  obtain ⟨first, rest, hdigits⟩ := List.exists_cons_of_ne_nil
    (Nat.toDigits_ne_nil (n := d.coefficient) (b := 10))
  have hfirst : first.isDigit = true := isDigit_of_mem (n := d.coefficient) (by simp [hdigits])
  unfold writeDecimal
  dsimp only
  rw [hdigits]
  split
  · split
    · exact ⟨first, rfl, hfirst⟩
    · split
      case isTrue hlead =>
        obtain ⟨count, hcount⟩ : ∃ count, ((first :: rest).length + d.exponent).toNat = count + 1 :=
          Nat.exists_eq_add_one.2 (by omega)
        rw [hcount]
        exact ⟨first, rfl, hfirst⟩
      case isFalse => exact ⟨'0', rfl, rfl⟩
  · cases rest with
    | nil => exact ⟨first, rfl, hfirst⟩
    | cons second rest => exact ⟨first, rfl, hfirst⟩

/-- and begin with a sign or a digit. -/
theorem head?_write (l : Layout) (x : Binary64) :
    ∃ c ∈ (l.write x).head?, c = '-' ∨ c.isDigit = true := by
  unfold write
  split
  · exact ⟨'-', rfl, Or.inl rfl⟩
  · obtain ⟨c, hc, hdigit⟩ := head?_writeDecimal l x.shortest
    exact ⟨c, hc, Or.inr hdigit⟩

end Decimal.Layout

end Flowgraph
