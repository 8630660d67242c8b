import Flowgraph.Proofs.Yaml.Double
import Flowgraph.Proofs.Yaml.Layout
import Flowgraph.Proofs.Yaml.Literal
import Flowgraph.Proofs.Yaml.Plain
import Flowgraph.Proofs.Yaml.Single
import Flowgraph.Proofs.Yaml.Tokens

/-!
# Scalars as tokens

A tree without parts is printed as one scalar, or as the two marks of an empty collection. The
scanner takes it back to the tokens of the tree and goes on to the next line (`arrives_leaf`). A
key that is short enough to be followed by its colon is taken back to its token as well
(`token?_text`).
-/

set_option autoImplicit false

namespace Flowgraph.Yaml

open Cursor
open Printer (spaces)

/-! ### Styles -/

namespace Style

variable {s : String} {text : List Char} {p q : Char → Bool}

theorem allowsPlain_of_plain (h : ofText s = .plain) :
    allowsPlain s.toList = true ∧ s.toList ≠ [] := by
  refine ⟨?_, fun hnil => ?_⟩
  · unfold ofText at h
    dsimp only at h
    split at h
    · split at h <;> cases h
    · split at h
      case isTrue hplain => exact (Bool.and_eq_true_iff.1 hplain).1
      case isFalse => split at h <;> cases h
  · have hempty := Scalar.not_null_of_meaning (meaning_of_plain h)
    rw [String.toList_eq_nil_iff.1 hnil] at hempty
    cases hempty

theorem printable_of_needsEscape (h : needsEscape text = false) : Printable text := by
  intro a ha
  rw [needsEscape, Bool.or_eq_false_iff, List.any_eq_false] at h
  simpa using h.1 a ha

theorem fit_of_single (h : ofText s = .single) : Quoted.Fit s.toList := by
  unfold ofText at h
  dsimp only at h
  split at h
  · split at h <;> cases h
  case isFalse hline =>
    split at h
    · cases h
    · split at h
      case isTrue hsingle => exact Quoted.fit_of_allowsSingle hsingle (by simpa using hline)
      case isFalse => cases h

theorem printable_of_literal (h : ofText s = .literal) :
    Printable s.toList ∧ '\n' ∈ s.toList := by
  unfold ofText at h
  dsimp only at h
  split at h
  case isTrue hline =>
    split at h
    case isTrue hliteral =>
      rw [allowsLiteral, Bool.and_eq_true, Bool.not_eq_true'] at hliteral
      exact ⟨printable_of_needsEscape hliteral.1, by simpa using hline⟩
    case isFalse => cases h
  · split at h
    · cases h
    · split at h <;> cases h

/-! ### Numbers and words -/

open Decimal.Layout (IsNumeral)

theorem somewhere_eq_false {ends : List Char → Bool} (h : ∀ a ∈ text, p a = false) :
    somewhere p ends text = false := by
  induction text with
  | nil => rfl
  | cons a text ih =>
    obtain ⟨ha, htext⟩ := List.forall_mem_cons.1 h
    rw [somewhere, ha, ih htext]
    rfl

theorem meets_eq_false (h : ∀ a ∈ text, p a = false) : meets p q text = false := by
  induction text with
  | nil => rfl
  | cons a text ih =>
    obtain ⟨ha, htext⟩ := List.forall_mem_cons.1 h
    cases text with
    | nil => rfl
    | cons b text =>
      rw [meets, ha, ih htext]
      rfl

theorem of_isNumeral {a : Char} (h : IsNumeral a) :
    isPrintable a = true ∧ isSpace a = false ∧ isMark a = false ∧ a ≠ ':' := by
  have hother : ∀ b : Char, ¬IsNumeral b → a ≠ b := by
    rintro b hb rfl
    exact hb h
  refine ⟨?_, ?_, ?_, hother _ (by decide)⟩
  · rcases h with hdigit | rfl | rfl | rfl | rfl
    · simp only [Char.isDigit, Bool.and_eq_true, decide_eq_true_eq, ge_iff_le,
        UInt32.le_iff_toNat_le] at hdigit
      simp only [isPrintable, Bool.or_eq_true, Bool.and_eq_true, decide_eq_true_eq]
      have hlow : 48 ≤ a.toNat := hdigit.1
      have hhigh : a.toNat ≤ 57 := hdigit.2
      omega
    all_goals rfl
  · simp [isSpace, isBlank, isBreak, hother ' ' (by decide), hother '\t' (by decide),
      hother '\n' (by decide), hother '\r' (by decide), hother '\u0085' (by decide),
      hother '\u2028' (by decide), hother '\u2029' (by decide)]
  · have hmarks : "#,[]\x7b\x7d&*!|>'\"%@`".toList.all (fun b => decide ¬IsNumeral b) = true := by
      decide
    rw [isMark, List.contains_eq_mem, decide_eq_false_iff_not]
    exact fun hmem => of_decide_eq_true (List.all_eq_true.1 hmarks a hmem) h

/-- A number can stand by itself. -/
theorem allowsPlain_of_isNumeral {sign digits : List Char} (hsign : sign = [] ∨ sign = ['-'])
    (h : ∀ a ∈ digits, IsNumeral a) (hfirst : ∃ a ∈ digits.head?, a.isDigit = true) :
    allowsPlain (sign ++ digits) = true := by
  have hall : ∀ a ∈ sign ++ digits, IsNumeral a := by
    refine List.forall_mem_append.2 ⟨?_, h⟩
    rcases hsign with rfl | rfl
    · exact List.forall_mem_nil _
    · exact List.forall_mem_singleton.2 (Or.inr (Or.inl rfl))
  have hspace : ∀ a ∈ sign ++ digits, a ≠ ' ' := fun a ha heq => by
    have hshown := (of_isNumeral (hall a ha)).2.1
    rw [heq] at hshown
    cases hshown
  have hescape : needsEscape (sign ++ digits) = false := by
    have hprintable : (sign ++ digits).any (!isPrintable ·) = false :=
      List.any_eq_false.2 fun a ha => by simp [(of_isNumeral (hall a ha)).1]
    rw [needsEscape, hprintable, meets_eq_false fun a ha => beq_eq_false_iff_ne.2 (hspace a ha)]
    rfl
  have hbreak : (sign ++ digits).any isBreak = false := List.any_eq_false.2 fun a ha => by
    simp [isBreak_eq_false (of_isNumeral (hall a ha)).2.1]
  have hhead : (sign ++ digits).head? ≠ some ' ' := fun heq =>
    hspace _ (List.mem_of_mem_head? heq) rfl
  have hlast : (sign ++ digits).getLast? ≠ some ' ' := fun heq =>
    hspace _ (List.mem_of_getLast? heq) rfl
  have hmark : isMarked (sign ++ digits) = false := by
    have hunmarked : (sign ++ digits).head?.any isMark = false := by
      cases hcons : sign ++ digits with
      | nil => rfl
      | cons a rest =>
        rw [hcons] at hall
        exact (of_isNumeral (hall a List.mem_cons_self)).2.2.1
    rw [isMarked, hunmarked, somewhere_eq_false fun a ha =>
      beq_eq_false_iff_ne.2 (of_isNumeral (hall a ha)).2.2.2,
      meets_eq_false fun a ha => (of_isNumeral (hall a ha)).2.1]
    obtain ⟨a, ha, hdigit⟩ := hfirst
    obtain ⟨rest, rfl⟩ := List.head?_eq_some_iff.1 ha
    have hshown : isSpace a = false := (of_isNumeral (Or.inl hdigit)).2.1
    have hother : ∀ b : Char, b.isDigit = false → a ≠ b := by
      rintro _ hb rfl
      rw [hdigit] at hb
      cases hb
    rcases hsign with rfl | rfl
    · simp [List.nil_append, hother '-' rfl, hother '.' rfl, hother '?' rfl]
    · simp [hother '-' rfl, endsWord, hshown]
  rw [allowsPlain, hescape, hbreak, hmark, bne_iff_ne.2 hhead, bne_iff_ne.2 hlast]
  rfl

theorem allowsPlain_number (x : Json.Number) :
    allowsPlain (x.text Printer.layout) = true ∧ x.text Printer.layout ≠ [] := by
  have hsign : ∀ p : Prop, [Decidable p] → (if p then ['-'] else []) = [] ∨
      (if p then ['-'] else []) = ['-'] := fun p _ => by split <;> simp
  cases x with
  | integer n =>
    have hdigits : Nat.toDigits 10 n.natAbs ≠ [] := Nat.toDigits_ne_nil
    exact ⟨allowsPlain_of_isNumeral (hsign (n < 0)) (Decimal.Layout.isNumeral_digits _)
      ⟨_, List.head?_eq_some_head hdigits, Decimal.isDigit_of_mem (List.head_mem hdigits)⟩,
      List.append_ne_nil_of_right_ne_nil _ hdigits⟩
  | float x =>
    have hfirst := Decimal.Layout.head?_writeDecimal Printer.layout x.shortest
    refine ⟨allowsPlain_of_isNumeral (hsign _) (Decimal.Layout.isNumeral_writeDecimal _ _) hfirst,
      List.append_ne_nil_of_right_ne_nil _ fun hnil => ?_⟩
    obtain ⟨a, ha, -⟩ := hfirst
    rw [hnil] at ha
    cases ha

end Style

/-! ### Printed texts -/

theorem length_flatMap_le {f : Char → List Char} {bound : Nat} (h : ∀ a, (f a).length ≤ bound)
    (text : List Char) : (text.flatMap f).length ≤ bound * text.length := by
  induction text with
  | nil => exact Nat.zero_le _
  | cons a text ih =>
    have ha := h a
    rw [List.flatMap_cons, List.length_append, List.length_cons, Nat.mul_succ]
    omega

/-- No character takes less than a byte. -/
theorem length_le_utf8ByteSize (s : String) : s.toList.length ≤ s.utf8ByteSize := by
  have hencode : ∀ text : List Char, text.length ≤ text.utf8Encode.size := by
    intro text
    induction text with
    | nil => exact Nat.zero_le _
    | cons a text ih =>
      have hsize : (String.utf8EncodeChar a).length = a.utf8Size := String.length_utf8EncodeChar a
      have hpos := a.utf8Size_pos
      rw [List.utf8Encode_cons, List.utf8Encode_singleton, ByteArray.size_append,
        List.size_toByteArray, hsize, List.length_cons]
      omega
  have hs := hencode s.toList
  rwa [String.utf8Encode_toList] at hs

namespace Printer

variable {text : List Char} {s : String} {column : Nat}

theorem text_of_plain (h : Style.ofText s = .plain) : Printer.text column s = s.toList := by
  simp only [Printer.text, h]

theorem text_of_single (h : Style.ofText s = .single) : Printer.text column s =
    '\'' :: (Quoted.printed column s.toList ++ ['\'']) := by
  simp only [Printer.text, h]
  rfl

theorem text_of_double (h : Style.ofText s = .double) : Printer.text column s =
    '"' :: (s.toList.flatMap doubleChar ++ ['"']) := by
  simp only [Printer.text, h]
  rfl

theorem text_of_literal (h : Style.ofText s = .literal) : Printer.text column s =
    '|' :: literalMarks s.toList ++ '\n' :: literalLines column true s.toList := by
  simp only [Printer.text, h]

theorem text_ne_nil (column : Nat) (s : String) : Printer.text column s ≠ [] := by
  cases hstyle : Style.ofText s with
  | plain => exact text_of_plain hstyle ▸ (Style.allowsPlain_of_plain hstyle).2
  | single => exact text_of_single hstyle ▸ List.cons_ne_nil _ _
  | double => exact text_of_double hstyle ▸ List.cons_ne_nil _ _
  | literal => exact text_of_literal hstyle ▸ List.cons_ne_nil _ _

/-- A text of one line stands between quotes as it is, with quotes written twice. -/
theorem printed_of_line (h : ∀ a ∈ text, isBreak a = false) :
    Quoted.printed column text = doubled text :=
  indentLines_line fun a ha => h a (mem_doubled ha)

/-- The longest escapes are those of characters of sixteen bits, as the ones of more bits show. -/
theorem length_doubleChar (a : Char) : (doubleChar a).length ≤ 6 := by
  unfold doubleChar
  split
  · simp
  · split
    · simp
    case isFalse hprint =>
      split
      case isTrue hsmall =>
        have hhex := length_hex (by decide : 0 < 2) (Nat.lt_succ_of_le hsmall)
        simp only [List.length_cons, hhex]
        decide
      case isFalse =>
        split
        case isTrue hmiddle =>
          have hhex := length_hex (by decide : 0 < 4) (Nat.lt_succ_of_le hmiddle)
          simp only [List.length_cons, hhex]
          decide
        case isFalse hlarge =>
          have hshown : 0x10000 ≤ a.toNat := Nat.lt_of_not_le hlarge
          simp [Style.isPrintable, hshown] at hprint

theorem line_of_allowsKey (h : Style.allowsKey s = true) : ∀ a ∈ s.toList, isBreak a = false := by
  rw [Style.allowsKey, Bool.and_eq_true, Bool.not_eq_true'] at h
  exact fun a ha => by simpa using List.any_eq_false.1 h.1 a ha

/-- A key that is short enough by the bytes is so when it is printed. -/
theorem length_text_le (column : Nat) (h : Style.allowsKey s = true) :
    (Printer.text column s).length ≤ 1024 := by
  have hline := line_of_allowsKey h
  have hlength := length_le_utf8ByteSize s
  rw [Style.allowsKey, Bool.and_eq_true, decide_eq_true_eq] at h
  cases hstyle : Style.ofText s with
  | plain =>
    rw [text_of_plain hstyle]
    omega
  | single =>
    have hdoubled : (doubled s.toList).length ≤ 2 * s.toList.length :=
      length_flatMap_le (fun a => by split <;> simp) _
    rw [text_of_single hstyle, printed_of_line hline]
    simp only [List.length_cons, List.length_append, List.length_nil]
    omega
  | double =>
    have hprinted := length_flatMap_le length_doubleChar s.toList
    rw [text_of_double hstyle]
    simp only [List.length_cons, List.length_append, List.length_nil]
    omega
  | literal => cases hline _ (Style.printable_of_literal hstyle).2

theorem printable_printed (column : Nat) (h : Quoted.Fit text) :
    Printable ('\'' :: (Quoted.printed column text ++ ['\''])) :=
  printable_cons.2 ⟨rfl, printable_append.2
    ⟨printable_indentLines (printable_doubled h.printable), printable_cons.2 ⟨rfl, printable_nil⟩⟩⟩

theorem endLine_of_quotes {a b : Char} (h : isBreak b = false) :
    endLine (a :: (text ++ [b])) = a :: (text ++ [b, '\n']) := by
  have hlast : (a :: (text ++ [b])).getLast?.any isBreak = false := by
    rw [← List.cons_append, List.getLast?_concat]
    exact h
  rw [endLine, hlast, if_neg Bool.false_ne_true, List.cons_append, List.append_assoc]
  rfl

theorem endLine_of_plain (h : Style.allowsPlain text = true) : endLine text = text ++ ['\n'] := by
  have hline : ∀ a ∈ text, isBreak a = false := fun a ha => by
    rw [Bool.eq_false_iff]
    intro hbreak
    obtain rfl := (Plain.fit_of_allowsPlain h).blank a ha (by rw [isSpace, hbreak, Bool.or_true])
    cases hbreak
  have hlast : text.getLast?.any isBreak = false := by
    cases hget : text.getLast? with
    | none => rfl
    | some a => exact hline a (List.mem_of_getLast? hget)
  rw [endLine, hlast]
  rfl

end Printer

/-! ### Which token begins -/

namespace Layout

variable {l : Layout} {c : Cursor} {found : List Token} {blocks : List Nat} {allowed : Bool}
  {n : Nat} {next text after rest : List Char}

theorem Inside.of_first {a : Char} (h : a ≠ '%' ∧ a ≠ '-' ∧ a ≠ '.') : Inside (a :: rest) where
  directive heq := h.1 (Option.some.inj heq)
  start heq := h.2.1 (List.cons.inj heq).1
  close heq := h.2.2 (List.cons.inj heq).1

theorem token?_quoted {quote : Char} (hquote : quote = '\'' ∨ quote = '"')
    (hc : l.cursor.rest = quote :: rest) :
    l.token? = (Quoted.read? quote l.cursor).bind fun p => l.word? (.scalar false p.1) p.2 := by
  have hinside : Inside l.cursor.rest := by
    rw [hc]
    rcases hquote with rfl | rfl <;> exact Inside.of_first (by decide)
  rw [token?]
  dsimp only
  rw [if_neg hinside.not_directive, hinside.atBound.1, hinside.atBound.2, hc]
  rcases hquote with rfl | rfl <;> rfl

theorem token?_literal (hc : l.cursor.rest = '|' :: rest) (hflow : l.inFlow = false) :
    l.token? = l.block? true := by
  have hinside : Inside l.cursor.rest := by
    rw [hc]
    exact Inside.of_first (by decide)
  rw [token?_of_not_marks hc hinside rfl, if_neg (not_and_of_ne (by decide)),
    if_neg (not_and_of_ne (by decide)), if_neg (not_and_of_ne (by decide)), hflow,
    if_pos ⟨Or.inl rfl, rfl⟩]
  rfl

/-- What follows a word does not make it a bound of the document. -/
theorem take_append_ne {a : Char} (h : text.take 3 ≠ [a, a, a]) (hafter : after.head? ≠ some a) :
    (text ++ after).take 3 ≠ [a, a, a] := by
  match text, after with
  | x :: y :: z :: text, after => exact h
  | [], b :: after | [x], b :: after | [x, y], b :: after =>
    rintro heq
    simp only [List.nil_append, List.cons_append, List.take_succ_cons, List.cons.injEq] at heq
    simp_all
  | [], [] | [x], [] | [x, y], [] => rintro ⟨⟩

theorem marks_eq_false {a : Char} (h : Style.isMark a = false) : marks a = false := by
  have hsubset : "[]\x7b\x7d,*&!'\"".toList ⊆ "#,[]\x7b\x7d&*!|>'\"%@`".toList := by decide
  rw [Style.isMark, List.contains_eq_mem, decide_eq_false_iff_not] at h
  rw [marks, List.contains_eq_mem, decide_eq_false_iff_not]
  exact fun hmem => h (hsubset hmem)

/-- A text that may stand by itself begins like one. -/
theorem beginsPlain_of_first {a : Char} (hspace : isSpace a = false)
    (hmark : Style.isMark a = false)
    (hword : a = '?' ∨ a = '-' ∨ a = ':' → endsWord rest = false) :
    beginsPlain false (a :: rest) = true := by
  unfold beginsPlain
  split
  case h_1 heq => cases heq
  case h_2 heq =>
    obtain ⟨rfl, rfl⟩ := List.cons.inj heq
    have hrest := hword (Or.inr (Or.inl rfl))
    cases rest with
    | nil => rfl
    | cons b rest =>
      rw [List.head?_cons, Option.any_some, isBlank_eq_false hrest]
      rfl
  case h_3 heq =>
    obtain ⟨rfl, rfl⟩ := List.cons.inj heq
    rw [hword (Or.inl rfl)]
    rfl
  case h_4 heq =>
    obtain ⟨rfl, rfl⟩ := List.cons.inj heq
    rw [hword (Or.inr (Or.inr rfl))]
    rfl
  case h_5 heq =>
    obtain ⟨rfl, rfl⟩ := List.cons.inj heq
    have hsubset : ",[]\x7b\x7d#&*!|>'\"%@`".toList ⊆ "#,[]\x7b\x7d&*!|>'\"%@`".toList := by
      decide
    rw [Style.isMark, List.contains_eq_mem, decide_eq_false_iff_not] at hmark
    rw [hspace, List.contains_eq_mem, decide_eq_false fun hmem => hmark (hsubset hmem)]
    rfl

/-- A text that may stand by itself is taken for a plain scalar. -/
theorem token?_plain (h : Style.allowsPlain text = true) (hne : text ≠ [])
    (hc : l.cursor.rest = text ++ after) (hminus : after.head? ≠ some '-')
    (hdot : after.head? ≠ some '.') (hflow : l.inFlow = false) :
    Inside l.cursor.rest ∧ l.token? = l.plain? := by
  have hfit := Plain.fit_of_allowsPlain h
  simp only [Style.allowsPlain, Style.isMarked, Bool.and_eq_true, Bool.not_eq_true',
    Bool.or_eq_false_iff, beq_eq_false_iff_ne] at h
  obtain ⟨-, ⟨⟨⟨⟨hstart, hclose⟩, hmark⟩, hitem⟩, hcolon⟩, -⟩ := h
  obtain ⟨a, rest, rfl⟩ := List.exists_cons_of_ne_nil hne
  rw [List.cons_append] at hc
  have hspace : isSpace a = false := (hfit.head a rfl).1
  have hmark : Style.isMark a = false := hmark
  have hinside : Inside l.cursor.rest := by
    rw [hc]
    refine ⟨fun heq => ?_, take_append_ne hstart hminus, take_append_ne hclose hdot⟩
    obtain rfl : a = '%' := Option.some.inj heq
    cases hmark
  have hword : a = '?' ∨ a = '-' ∨ a = ':' → endsWord (rest ++ after) = false := by
    intro ha
    refine Plain.endsWord_append ?_
    rcases ha with rfl | rfl | rfl
    · exact hitem
    · exact hitem
    · exact (Bool.or_eq_false_iff.1 hcolon).1
  have hends : ∀ {b : Char}, (a = b → a = '?' ∨ a = '-' ∨ a = ':') →
      ¬(a = b ∧ endsWord (rest ++ after) = true) := fun hb hboth =>
    Bool.noConfusion ((hword (hb hboth.1)).symm.trans hboth.2)
  have hblock : ¬((a = '|' ∨ a = '>') ∧ (!l.inFlow) = true) := by
    rintro ⟨rfl | rfl, -⟩ <;> cases hmark
  refine ⟨hinside, ?_⟩
  rw [token?_of_not_marks hc hinside (marks_eq_false hmark), if_neg hblock, hflow]
  simp only [Bool.false_eq_true, false_or]
  rw [if_neg (hends (Or.inr ∘ Or.inl)), if_neg (hends Or.inl), if_neg (hends (Or.inr ∘ Or.inr)),
    beginsPlain_of_first hspace hmark hword, if_pos rfl]

theorem plain?_of_read? {s : String} {broken : Bool} {c' : Cursor}
    (h : Plain.read? false (here c found blocks allowed).floor c = some (s, broken, c')) :
    (here c found blocks allowed).plain? = some
      { cursor := c', found := .scalar true s :: found, blocks, keyAllowed := broken,
        candidate := candidateAt c found blocks allowed } := by
  unfold plain?
  rw [show Plain.read? (here c found blocks allowed).inFlow (here c found blocks allowed).floor
    (here c found blocks allowed).cursor = some (s, broken, c') from h]
  simp only [bind, Option.bind_some, word?_here]
  rfl

theorem block?_of_read? {s : String} {c' : Cursor}
    (h : Block.read? true blocks.head? c = some (s, c')) :
    (here c found blocks allowed).block? true =
      some { cursor := c', found := .scalar false s :: found, blocks } := by
  unfold block?
  rw [show Block.read? true (here c found blocks allowed).blocks.head?
    (here c found blocks allowed).cursor = some (s, c') from h]
  rfl

/-! ### Scalars up to the end of their line -/

section Arriving

variable (found : List Token) (allowed : Bool) {parent : Nat}
  (hparent : blocks.head? = some parent) (hcolumn : parent < c.column) (hnext : Visible next)

include hparent hcolumn hnext

theorem arrives_plain (hn : n ≤ parent) (h : Style.allowsPlain text = true) (hne : text ≠ [])
    (hc : c.rest = text ++ '\n' :: (spaces n ++ next)) :
    Arrives (here c found blocks allowed) (.scalar true (String.ofList text) :: found) blocks n
      next := by
  obtain ⟨hinside, htoken⟩ := token?_plain (l := here c found blocks allowed) h hne hc
    (by rintro ⟨⟩) (by rintro ⟨⟩) rfl
  have hfloor : (here c found blocks allowed).floor = parent + 1 := by
    show blocks.head?.elim 0 (· + 1) = _
    rw [hparent]
    rfl
  have hread := Plain.read?_line h hne hc (any_of_visible (fun _ ha => ha) hnext)
    (Nat.lt_succ_of_le hn) (Inside.atDocument (c := c) hinside)
    (Nat.succ_le_succ (Nat.le_of_lt hcolumn))
  have hafter : (c.skip text.length).rest = '\n' :: (spaces n ++ next) := by
    rw [rest_skip, hc, List.drop_left]
  have hplain : (here c found blocks allowed).plain? = some
      { cursor := (c.skip text.length).past ('\n' :: spaces n)
        found := .scalar true (String.ofList text) :: found, blocks
        candidate := candidateAt c found blocks allowed } := by
    refine plain?_of_read? ?_
    rw [hfloor]
    exact hread
  have hline : c.line < ((c.skip text.length).past ('\n' :: spaces n)).line := by
    rw [spaces, past_indent hafter rfl rfl]
    exact Nat.lt_succ_self _
  refine arrives_of_token (htoken.trans hplain) (fleeting_candidateAt _ _ hparent hcolumn hline)
    (rest_past_line hafter) (column_past_line hafter) hnext ?_
  rw [cursor_here, hc]
  simp only [List.length_append, List.length_cons]
  omega

theorem arrives_single {column : Nat} (h : Quoted.Fit text) (hindent : column ≠ 0)
    (hc : c.rest = '\'' :: (Quoted.printed column text ++ '\'' :: '\n' :: (spaces n ++ next))) :
    Arrives (here c found blocks allowed) (.scalar false (String.ofList text) :: found) blocks n
      next := by
  have hread := Quoted.read?_single h hc (by rintro ⟨⟩) hindent
  have hrest : c.rest = '\'' :: (Quoted.printed column text ++ ['\'']) ++
      '\n' :: (spaces n ++ next) := by
    rw [hc, List.cons_append, List.append_assoc]
    rfl
  have hafter := rest_past (Printer.printable_printed column h) hrest
  refine arrives_word ?_ hparent hcolumn (line_le_past _ _) hafter ?_ hnext
  · rw [token?_quoted (l := here c found blocks allowed) (Or.inl rfl) hc, cursor_here, hread]
    rfl
  · rw [hafter, hrest, List.length_append]
    exact Nat.le_add_left _ _

theorem arrives_double
    (hc : c.rest = '"' :: (text.flatMap Printer.doubleChar ++ '"' :: '\n' :: (spaces n ++ next))) :
    Arrives (here c found blocks allowed) (.scalar false (String.ofList text) :: found) blocks n
      next := by
  have hread := Quoted.read?_double hc
  have hafter : (c.skip ((text.flatMap Printer.doubleChar).length + 2)).rest =
      '\n' :: (spaces n ++ next) := by
    rw [rest_skip, hc, List.drop_succ_cons, ← List.drop_drop, List.drop_left]
    rfl
  have hline : c.line ≤ (c.skip ((text.flatMap Printer.doubleChar).length + 2)).line :=
    Nat.le_refl _
  refine arrives_word ?_ hparent hcolumn hline hafter ?_ hnext
  · rw [token?_quoted (l := here c found blocks allowed) (Or.inr rfl) hc, cursor_here, hread]
    rfl
  · rw [rest_skip, List.length_drop]
    exact Nat.sub_le _ _

omit hcolumn in
theorem arrives_literal (hn : n ≤ parent) (hprintable : Printable text) (hne : text ≠ [])
    (hc : c.rest = '|' :: (Printer.literalMarks text ++ '\n' ::
      (Printer.literalLines (parent + 2) true (text ++ Block.lastBreak text) ++
        (spaces n ++ next)))) :
    Arrives (here c found blocks allowed) (.scalar false (String.ofList text) :: found) blocks n
      next := by
  have hread := Block.read?_literal hprintable hne hc (by omega) fun a ha => (hnext a ha).1
  have hblock : (here c found blocks allowed).block? true = some
      { cursor := c.past ('|' :: (Printer.literalMarks text ++ '\n' ::
          (Printer.literalLines (parent + 2) true (text ++ Block.lastBreak text) ++ spaces n)))
        found := .scalar false (String.ofList text) :: found, blocks } := by
    rw [← hparent] at hread
    exact block?_of_read? hread
  have htoken := token?_literal (l := here c found blocks allowed) hc rfl
  obtain ⟨hrest, hstop⟩ := Block.past_literal hprintable hc
  refine arrives_of_token (htoken.trans hblock) fleeting_none hrest hstop hnext ?_
  rw [cursor_here, hc]
  simp only [List.length_cons, List.length_append]
  omega

theorem arrives_empty {a b : Char} {token token' : Token}
    (hmarks : a = '[' ∧ b = ']' ∧ token = .flowSequence ∧ token' = .flowSequenceEnd ∨
      a = '\x7b' ∧ b = '\x7d' ∧ token = .flowMapping ∧ token' = .flowMappingEnd)
    (hc : c.rest = a :: b :: '\n' :: (spaces n ++ next)) :
    Arrives (here c found blocks allowed) (token' :: token :: found) blocks n next := by
  have hinside : Inside (here c found blocks allowed).cursor.rest := by
    rw [cursor_here, hc]
    rcases hmarks with ⟨rfl, -⟩ | ⟨rfl, -⟩ <;> exact Inside.of_first (by decide)
  have hwithin : (within c token found blocks allowed).cursor.rest =
      b :: '\n' :: (spaces n ++ next) := by
    show (c.skip 1).rest = _
    rw [rest_skip, hc]
    rfl
  have hinside' : Inside (within c token found blocks allowed).cursor.rest := by
    rw [hwithin]
    rcases hmarks with ⟨-, rfl, -⟩ | ⟨-, rfl, -⟩ <;> exact Inside.of_first (by decide)
  have hopen : (here c found blocks allowed).token? =
      (here c found blocks allowed).openFlow? token := by
    rw [token?]
    dsimp only
    rw [if_neg hinside.not_directive, hinside.atBound.1, hinside.atBound.2, cursor_here, hc]
    rcases hmarks with ⟨rfl, -, rfl, -⟩ | ⟨rfl, -, rfl, -⟩ <;> rfl
  have hclose : (within c token found blocks allowed).token? =
      (within c token found blocks allowed).closeFlow? token' := by
    rw [token?]
    dsimp only
    rw [if_neg hinside'.not_directive, hinside'.atBound.1, hinside'.atBound.2, hwithin]
    rcases hmarks with ⟨-, rfl, -, rfl⟩ | ⟨-, rfl, -, rfl⟩ <;> rfl
  refine arrives_flow hopen hclose hparent hcolumn hc ?_ hnext
  rcases hmarks with ⟨-, rfl, -⟩ | ⟨-, rfl, -⟩ <;> decide

/-- A text goes to its token. -/
theorem arrives_text (hn : n ≤ parent) (s : String)
    (hc : c.rest = Printer.endLine (Printer.text (parent + 2) s) ++ (spaces n ++ next)) :
    Arrives (here c found blocks allowed) (Tree.textToken s :: found) blocks n next := by
  have hlist : String.ofList s.toList = s := String.ofList_toList
  unfold Tree.textToken
  cases hstyle : Style.ofText s with
  | plain =>
    obtain ⟨hplain, hne⟩ := Style.allowsPlain_of_plain hstyle
    rw [Printer.text_of_plain hstyle, Printer.endLine_of_plain hplain, List.append_assoc] at hc
    have harrives := arrives_plain found allowed hparent hcolumn hnext hn hplain hne hc
    rwa [hlist] at harrives
  | single =>
    rw [Printer.text_of_single hstyle, Printer.endLine_of_quotes rfl, List.cons_append,
      List.append_assoc] at hc
    have harrives := arrives_single found allowed hparent hcolumn hnext
      (Style.fit_of_single hstyle) (Nat.succ_ne_zero _) hc
    rwa [hlist] at harrives
  | double =>
    rw [Printer.text_of_double hstyle, Printer.endLine_of_quotes rfl, List.cons_append,
      List.append_assoc] at hc
    have harrives := arrives_double found allowed hparent hcolumn hnext hc
    rwa [hlist] at harrives
  | literal =>
    obtain ⟨hprintable, hline⟩ := Style.printable_of_literal hstyle
    have hne : s.toList ≠ [] := List.ne_nil_of_mem hline
    rw [Printer.text_of_literal hstyle, Block.endLine_literal hne, List.cons_append,
      List.append_assoc, List.cons_append] at hc
    have harrives := arrives_literal found allowed hparent hnext hn hprintable hne hc
    rwa [hlist] at harrives

/-- A tree without parts goes to its tokens. -/
theorem arrives_leaf (hn : n ≤ parent) {t : Tree} (h : t.hasParts = false)
    (hc : c.rest = Printer.endLine (Printer.leaf (parent + 2) t) ++ (spaces n ++ next)) :
    Arrives (here c found blocks allowed) (t.tokens.reverse ++ found) blocks n next := by
  have hword : ∀ word : List Char, Style.allowsPlain word = true ∧ word ≠ [] →
      Printer.leaf (parent + 2) t = word → t.tokens = [.scalar true (String.ofList word)] →
      Arrives (here c found blocks allowed) (t.tokens.reverse ++ found) blocks n next := by
    rintro word ⟨hplain, hne⟩ hleaf htokens
    rw [hleaf, Printer.endLine_of_plain hplain, List.append_assoc] at hc
    rw [htokens]
    exact arrives_plain found allowed hparent hcolumn hnext hn hplain hne hc
  match t with
  | .string s => exact arrives_text found allowed hparent hcolumn hnext hn s hc
  | .number x => exact hword _ (Style.allowsPlain_number x) rfl rfl
  | .bool true => exact hword "true".toList (by decide) rfl rfl
  | .bool false => exact hword "false".toList (by decide) rfl rfl
  | .null | .infinite | .unkeyed | .unreadable | .broken =>
    exact hword "null".toList (by decide) rfl rfl
  | .array [] =>
    exact arrives_empty found allowed hparent hcolumn hnext (Or.inl ⟨rfl, rfl, rfl, rfl⟩) hc
  | .object [] =>
    exact arrives_empty found allowed hparent hcolumn hnext (Or.inr ⟨rfl, rfl, rfl, rfl⟩) hc
  | .array (_ :: _) | .object (_ :: _) => cases h

end Arriving

/-! ### Keys -/

/-- A short key goes to its token, in front of its colon. -/
theorem token?_text (found : List Token) {name : String} {b : Char} {column : Nat}
    (hline : ∀ a ∈ name.toList, isBreak a = false) (hblocks : ∀ p ∈ blocks.head?, p ≤ c.column)
    (hindent : column ≠ 0) (hc : c.rest = Printer.text column name ++ ':' :: b :: rest)
    (hb : isSpace b = true) : (here c found blocks true).token? =
      (here c found blocks true).word? (Tree.textToken name)
        (c.skip (Printer.text column name).length) := by
  have hlist : String.ofList name.toList = name := String.ofList_toList
  unfold Tree.textToken
  cases hstyle : Style.ofText name with
  | plain =>
    obtain ⟨hplain, hne⟩ := Style.allowsPlain_of_plain hstyle
    rw [Printer.text_of_plain hstyle] at hc ⊢
    obtain ⟨hinside, htoken⟩ := token?_plain (l := here c found blocks true) hplain hne hc
      (by rintro ⟨⟩) (by rintro ⟨⟩) rfl
    have hfloor : (here c found blocks true).floor ≤ c.column + 1 := by
      show blocks.head?.elim 0 (· + 1) ≤ _
      cases hhead : blocks.head? with
      | none => exact Nat.zero_le _
      | some p => exact Nat.succ_le_succ (hblocks p hhead)
    have hread := Plain.read?_key hplain hne hc hb (Inside.atDocument (c := c) hinside) hfloor
    rw [htoken, plain?_of_read? hread, word?_here, hlist]
    rfl
  | single =>
    have hprinted : ∀ a ∈ '\'' :: (Quoted.printed column name.toList ++ ['\'']),
        isBreak a = false := by
      rw [Printer.printed_of_line hline]
      refine List.forall_mem_cons.2 ⟨rfl, List.forall_mem_append.2 ⟨fun a ha => ?_, ?_⟩⟩
      · exact hline a (Printer.mem_doubled ha)
      · exact List.forall_mem_singleton.2 rfl
    rw [Printer.text_of_single hstyle, List.cons_append, List.append_assoc] at hc
    rw [Printer.text_of_single hstyle, ← past_of_line hprinted,
      token?_quoted (l := here c found blocks true) (Or.inl rfl) hc, cursor_here,
      Quoted.read?_single (Style.fit_of_single hstyle) hc (by rintro ⟨⟩) hindent, hlist]
    rfl
  | double =>
    rw [Printer.text_of_double hstyle, List.cons_append, List.append_assoc] at hc
    rw [Printer.text_of_double hstyle,
      token?_quoted (l := here c found blocks true) (Or.inr rfl) hc, cursor_here,
      Quoted.read?_double hc, hlist, List.length_cons, List.length_append]
    rfl
  | literal =>
    have hnewline := hline _ (Style.printable_of_literal hstyle).2
    cases hnewline

end Layout

end Flowgraph.Yaml
