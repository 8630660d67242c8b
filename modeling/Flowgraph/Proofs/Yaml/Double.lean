import Flowgraph.Proofs.Yaml.Scalar
import Flowgraph.Proofs.Yaml.Single

/-!
# Reading double-quoted scalars back

Between double quotes every character that does not show is written as an escape: a letter, or the
code of the character in hexadecimal digits. What is left of spaces are those between words.
-/

set_option autoImplicit false

namespace Flowgraph

namespace Text

/-- A digit is read as what it stands for, in upper case too, -/
theorem hexValue?_digit {n : Nat} (h : n < 16) :
    hexValue? (Nat.digitChar n).toUpper = some n := by
  revert n
  decide

/-- and so are digits, -/
theorem ofDigits?_toDigits (n : Nat) :
    ofDigits? 16 ((Nat.toDigits 16 n).map Char.toUpper) = some n := by
  induction n using Nat.strongRecOn with
  | _ n ih =>
    rw [Nat.toDigits_eq_if (by decide)]
    split
    case isTrue hsmall =>
      rw [List.map_singleton, ← List.nil_append [_], ofDigits?_concat, hexValue?_digit hsmall]
      simp [ofDigits?, hsmall]
    case isFalse hlarge =>
      have hdigit : n % 16 < 16 := Nat.mod_lt n (by decide)
      rw [List.map_append, List.map_singleton, ofDigits?_concat, ih (n / 16) (by omega),
        hexValue?_digit hdigit]
      simp only [Option.bind_some, if_pos hdigit, Option.some.injEq]
      omega

/-- with zeros in front. -/
theorem ofDigits?_zeros (zeros : Nat) (digits : List Char) :
    ofDigits? 16 (List.replicate zeros '0' ++ digits) = ofDigits? 16 digits := by
  induction digits using List.reverseRecOn with
  | nil =>
    rw [List.append_nil]
    induction zeros with
    | zero => rfl
    | succ zeros ih =>
      rw [List.replicate_succ', ofDigits?_concat, ih]
      rfl
  | append_singleton digits c ih =>
    rw [← List.append_assoc, ofDigits?_concat, ofDigits?_concat, ih]

end Text

namespace Yaml

namespace Printer

theorem length_hex {width n : Nat} (hwidth : 0 < width) (h : n < Nat.pow 16 width) :
    (hex width n).length = width := by
  have hdigits : (Nat.toDigits 16 n).length ≤ width :=
    (Nat.length_toDigits_le_iff (by decide) hwidth).2 h
  rw [hex, List.length_append, List.length_replicate, List.length_map]
  omega

theorem ofDigits?_hex (width n : Nat) : Text.ofDigits? 16 (hex width n) = some n :=
  (Text.ofDigits?_zeros _ _).trans (Text.ofDigits?_toDigits n)

end Printer

namespace Quoted

open Cursor Printer

variable {text tail rest done : List Char} {c : Cursor} {fuel : Nat} {a : Char}

theorem eq_ofNat {n : Nat} (h : a.toNat = n) : a = Char.ofNat n := by
  rw [← h, Char.ofNat_toNat]

/-- The letter of an escape stands for the character it is written for. -/
theorem escape?_escapeLetter? {letter : Char} (h : escapeLetter? a = some letter) :
    codeLength? letter = none ∧ isBreak letter = false ∧ escape? letter = some a := by
  unfold escapeLetter? at h
  split at h
  all_goals cases h
  all_goals
    rename_i hcode
    rw [eq_ofNat hcode]
    exact ⟨rfl, rfl, rfl⟩

theorem escaped?_letter {letter : Char} (hc : c.rest = letter :: rest)
    (hcode : codeLength? letter = none) (h : escape? letter = some a) :
    escaped? c = some (a, c.skip 1) := by
  rw [escaped?, hc]
  dsimp only
  rw [hcode, h, advance_eq_skip]
  rfl

theorem escaped?_code {letter : Char} {width : Nat} (hcode : codeLength? letter = some width)
    (hwidth : 0 < width) (ha : a.toNat < Nat.pow 16 width)
    (hc : c.rest = letter :: (hex width a.toNat ++ rest)) :
    escaped? c = some (a, c.skip (width + 1)) := by
  have hlength := length_hex hwidth ha
  have hshort : ¬(hex width a.toNat ++ rest).length < width := by
    rw [List.length_append, hlength]
    omega
  have htake : (hex width a.toNat ++ rest).take width = hex width a.toNat :=
    List.take_left' hlength
  have hvalid : a.toNat.isValidChar := a.valid
  have hchar : ofCode? a.toNat = some a := by
    rw [ofCode?, if_pos hvalid, Char.ofNat_toNat]
  rw [escaped?, hc]
  dsimp only
  rw [hcode]
  dsimp only
  rw [if_neg hshort, htake, ofDigits?_hex]
  simp only [bind, Option.bind_some, hchar]
  rfl

/-- How a character is written between double quotes: as it is, or as an escape. -/
theorem doubleChar_cases (a : Char) :
    (doubleChar a = [a] ∧ Style.isPrintable a = true ∧ escapeLetter? a = none) ∨
      ∃ letter code, doubleChar a = '\\' :: letter :: code ∧ isBreak letter = false ∧
        ∀ (c : Cursor) (rest : List Char), c.rest = letter :: (code ++ rest) →
          escaped? c = some (a, c.skip (code.length + 1)) := by
  unfold doubleChar
  split
  case h_1 letter hletter =>
    obtain ⟨hcode, hbreak, hescape⟩ := escape?_escapeLetter? hletter
    exact Or.inr ⟨letter, [], rfl, hbreak, fun c rest hc => escaped?_letter hc hcode hescape⟩
  case h_2 hletter =>
    split
    case isTrue hprint => exact Or.inl ⟨rfl, hprint, hletter⟩
    case isFalse =>
      refine Or.inr ?_
      have hcode {letter : Char} {width : Nat} (hcode : codeLength? letter = some width)
          (hwidth : 0 < width) (ha : a.toNat < Nat.pow 16 width) (c : Cursor) (rest : List Char)
          (hc : c.rest = letter :: (hex width a.toNat ++ rest)) :
          escaped? c = some (a, c.skip ((hex width a.toNat).length + 1)) := by
        rw [length_hex hwidth ha]
        exact escaped?_code hcode hwidth ha hc
      split
      case isTrue hsmall =>
        exact ⟨'x', hex 2 a.toNat, rfl, rfl, hcode rfl (by decide) (Nat.lt_succ_of_le hsmall)⟩
      case isFalse =>
        split
        case isTrue hsmall =>
          exact ⟨'u', hex 4 a.toNat, rfl, rfl, hcode rfl (by decide) (Nat.lt_succ_of_le hsmall)⟩
        case isFalse =>
          have hlarge : a.toNat < Nat.pow 16 8 := by
            have hbound : (0x110000 : Nat) < Nat.pow 16 8 := by decide
            have hvalid : a.toNat < 0xD800 ∨ 0xDFFF < a.toNat ∧ a.toNat < 0x110000 := a.valid
            omega
          exact ⟨'U', hex 8 a.toNat, rfl, rfl, hcode rfl (by decide) hlarge⟩

theorem isSpace_of_escapeLetter? (ha : a ≠ ' ') (hprint : Style.isPrintable a = true)
    (hletter : escapeLetter? a = none) : isSpace a = false := by
  have hline : isBreak a = false := by
    rw [Bool.eq_false_iff]
    intro hbreak
    simp only [isBreak, Bool.or_eq_true, beq_iff_eq] at hbreak
    rcases hbreak with (((rfl | rfl) | rfl) | rfl) | rfl <;> cases hletter
  rw [isSpace, isBlank_of_isPrintable hprint, hline, Bool.or_false]
  exact beq_eq_false_iff_ne.2 ha

theorem exists_doubleChar_eq (ha : a ≠ ' ') :
    ∃ b more, doubleChar a = b :: more ∧ isSpace b = false := by
  rcases doubleChar_cases a with ⟨hchar, hprint, hletter⟩ | ⟨letter, code, hchar, -, -⟩
  · exact ⟨a, [], hchar, isSpace_of_escapeLetter? ha hprint hletter⟩
  · exact ⟨'\\', letter :: code, hchar, rfl⟩

/-- A printed character is read as the character. -/
theorem word?_doubleChar (ha : a ≠ ' ') (hc : c.rest = doubleChar a ++ rest) :
    word? '"' (fuel + 1) done c = word? '"' fuel (a :: done) (c.skip (doubleChar a).length) := by
  rcases doubleChar_cases a with ⟨hchar, hprint, hletter⟩ | ⟨letter, code, hchar, hbreak, hread⟩
  · have hspace := isSpace_of_escapeLetter? ha hprint hletter
    have hquote : a ≠ '"' := by
      rintro rfl
      cases hletter
    have hescape : a ≠ '\\' := by
      rintro rfl
      cases hletter
    rw [hchar] at hc ⊢
    rw [word?, hc]
    dsimp only [List.singleton_append]
    rw [hspace, if_neg Bool.false_ne_true, if_neg hquote, if_neg fun hboth => hescape hboth.1,
      advance_eq_skip]
    rfl
  · rw [hchar] at hc ⊢
    have hnext : (c.skip 1).rest = letter :: (code ++ rest) := by
      rw [rest_skip, hc]
      rfl
    have hspace : isSpace '\\' = false := rfl
    rw [word?, hc]
    dsimp only [List.cons_append]
    rw [hspace, if_neg Bool.false_ne_true, if_neg (by decide), if_pos ⟨rfl, rfl⟩,
      List.head?_cons, Option.any_some, hbreak, if_neg Bool.false_ne_true, advance_eq_skip]
    simp only [bind, hread _ _ hnext, Option.bind_some, skip_skip, List.length_cons]
    rw [Nat.add_comm 1]

theorem word?_end {b : Char} (hc : c.rest = b :: rest) (h : isSpace b = true ∨ b = '"') :
    word? '"' (fuel + 1) done c = some (done, false, c) := by
  rw [word?, hc]
  rcases h with hspace | rfl
  · exact if_pos hspace
  · have hquote : isSpace '"' = false := rfl
    dsimp only
    rw [hquote, if_neg Bool.false_ne_true, if_pos rfl,
      if_neg fun hboth => absurd hboth.1 (by decide)]

/-- A word is read up to the gap or the quote after it. -/
theorem word?_double {word : List Char} {b : Char} (done : List Char) (hword : ' ' ∉ word)
    (hc : c.rest = word.flatMap doubleChar ++ b :: rest) (h : isSpace b = true ∨ b = '"')
    (hfuel : word.length < fuel) :
    word? '"' fuel done c =
      some (word.reverse ++ done, false, c.skip (word.flatMap doubleChar).length) := by
  induction word generalizing fuel done c with
  | nil =>
    obtain ⟨fuel, rfl⟩ := Nat.exists_eq_add_one.2 hfuel
    exact word?_end hc h
  | cons a word ih =>
    obtain ⟨fuel, rfl⟩ := Nat.exists_eq_add_one.2 (Nat.zero_lt_of_lt hfuel)
    rw [List.flatMap_cons, List.append_assoc] at hc
    have hnext : (c.skip (doubleChar a).length).rest = word.flatMap doubleChar ++ b :: rest := by
      rw [rest_skip, hc, List.drop_left]
    rw [word?_doubleChar (fun heq => hword (heq ▸ List.mem_cons_self ..)) hc,
      ih (a :: done) (fun hmem => hword (List.mem_cons_of_mem _ hmem)) hnext
        (Nat.lt_of_succ_lt_succ hfuel),
      skip_skip, List.flatMap_cons, List.length_append, List.reverse_cons, List.append_assoc,
      List.singleton_append]

/-! ### Texts -/

theorem doubleChar_space : doubleChar ' ' = [' '] := by decide

theorem flatMap_spaces (n : Nat) :
    (List.replicate n ' ').flatMap doubleChar = List.replicate n ' ' := by
  induction n with
  | zero => rfl
  | succ n ih =>
    rw [List.replicate_succ, List.flatMap_cons, ih, doubleChar_space]
    rfl

theorem length_le_flatMap (text : List Char) :
    text.length ≤ (text.flatMap doubleChar).length := by
  induction text with
  | nil => exact Nat.le_refl _
  | cons a text ih =>
    have hchar : 0 < (doubleChar a).length := by
      rcases doubleChar_cases a with ⟨hchar, -, -⟩ | ⟨letter, code, hchar, -, -⟩ <;>
        simp [hchar]
    rw [List.flatMap_cons, List.length_append, List.length_cons]
    omega

/-- A text is a word, and spaces and a text after it unless the word is all there is. -/
theorem exists_spaces (text : List Char) :
    ∃ word n more, text = word ++ (List.replicate n ' ' ++ more) ∧ ' ' ∉ word ∧
      more.head? ≠ some ' ' ∧ (n = 0 → more = []) := by
  obtain ⟨word, rest, rfl, hword, hrest⟩ := exists_span (· != ' ') text
  obtain ⟨gap, more, rfl, hgap, hmore⟩ := exists_span (· == ' ') rest
  have hspaces : gap = List.replicate gap.length ' ' :=
    List.eq_replicate_iff.2 ⟨rfl, fun a ha => by simpa using hgap a ha⟩
  refine ⟨word, gap.length, more, by rw [← hspaces], ?_, ?_, fun hlength => ?_⟩
  · intro hmem
    simpa using hword ' ' hmem
  · intro heq
    rw [heq] at hmore
    cases hmore
  rw [List.length_eq_zero_iff.1 hlength, List.nil_append] at hrest
  cases more with
  | nil => rfl
  | cons a more =>
    have hspace : a = ' ' := by simpa using hrest
    rw [hspace] at hmore
    cases hmore

/-- **A text between double quotes is read word by word.** -/
theorem words?_double (done : List Char)
    (hc : c.rest = text.flatMap doubleChar ++ '"' :: tail) (hcolumn : c.column ≠ 0)
    (hfuel : text.length < fuel) :
    words? '"' fuel done c =
      some (text.reverse ++ done, c.skip ((text.flatMap doubleChar).length + 1)) := by
  induction fuel generalizing text done c with
  | zero => exact absurd hfuel (Nat.not_lt_zero _)
  | succ fuel ih =>
    have hdocument := atDocument_of_column hcolumn
    obtain ⟨word, n, more, rfl, hword, hmore, hall⟩ := exists_spaces text
    rw [List.flatMap_append, List.flatMap_append, flatMap_spaces, List.append_assoc,
      List.append_assoc] at hc
    rw [List.flatMap_append, List.flatMap_append, flatMap_spaces]
    have hafter : (c.skip (word.flatMap doubleChar).length).rest =
        List.replicate n ' ' ++ (more.flatMap doubleChar ++ '"' :: tail) := by
      rw [rest_skip, hc, List.drop_left]
    have hlength : word.length < c.rest.length + 1 := by
      have hprinted := length_le_flatMap word
      rw [hc, List.length_append]
      omega
    have hvisible : (more.flatMap doubleChar ++ '"' :: tail).head?.any isSpace = false := by
      cases more with
      | nil => rfl
      | cons a more =>
        obtain ⟨b, others, hchar, hspace⟩ :=
          exists_doubleChar_eq (a := a) fun heq => hmore (heq ▸ rfl)
        rw [List.flatMap_cons, hchar]
        exact hspace
    cases n with
    | zero =>
      obtain rfl := hall rfl
      rw [words?_close hdocument (word?_double done hword hc (Or.inr rfl) hlength) hafter,
        skip_skip]
      simp
    | succ n =>
      have hgap : Gap.read? 0 (c.skip (word.flatMap doubleChar).length).rest.length {}
          (c.skip (word.flatMap doubleChar).length) = some
            ({ blanks := List.replicate (n + 1) ' ' },
              (c.skip (word.flatMap doubleChar).length).skip (n + 1)) := by
        refine (Gap.read?_spaces [] hvisible hafter ?_).trans (by rw [List.append_nil])
        rw [hafter, List.length_append, List.length_replicate]
        exact Nat.le_add_right _ _
      have hnext : ((c.skip (word.flatMap doubleChar).length).skip (n + 1)).rest =
          more.flatMap doubleChar ++ '"' :: tail := by
        rw [rest_skip, hafter, List.drop_left' List.length_replicate]
      have htext : Gap.text { blanks := List.replicate (n + 1) ' ' } =
          List.replicate (n + 1) ' ' := rfl
      simp only [List.length_append, List.length_replicate] at hfuel
      rw [words?_gap hdocument (word?_double done hword hc (Or.inl rfl) hlength) hafter
        (by decide) hgap, htext, ih _ hnext (by simp only [column_skip]; omega) (by omega),
        skip_skip, skip_skip]
      simp only [List.reverse_append, List.reverse_replicate, List.append_assoc,
        List.length_append, List.length_replicate, Nat.add_assoc]

/-- **A text between double quotes is read back.** -/
theorem read?_double (hc : c.rest = '"' :: (text.flatMap doubleChar ++ '"' :: tail)) :
    read? '"' c = some (String.ofList text, c.skip ((text.flatMap doubleChar).length + 2)) := by
  have hrest : (c.skip 1).rest = text.flatMap doubleChar ++ '"' :: tail := by
    rw [rest_skip, hc]
    rfl
  have hlength : text.length < (c.skip 1).rest.length + 1 := by
    have hprinted := length_le_flatMap text
    rw [hrest, List.length_append]
    omega
  rw [read?, advance_eq_skip, words?_double [] hrest (Nat.succ_ne_zero _) hlength, skip_skip,
    List.append_nil, Nat.add_comm 1]
  simp only [bind, Option.bind_some, List.reverse_reverse]
  rfl

end Quoted

end Yaml

end Flowgraph
