import Flowgraph.Proofs.Yaml.Cursor
import Flowgraph.Yaml.Printer
import Flowgraph.Yaml.Token.Block

/-!
# Reading literal blocks back

The lines of a literal block stand at the column that its header gives, or at the column of the
first line where that shows. The reader keeps the break that ends a line apart from the breaks of
the empty lines after it; the mark in the header says which of them belong to the text.
-/

set_option autoImplicit false

namespace Flowgraph.Yaml

namespace Printer

variable {column : Nat} {s t : List Char} {a : Char}

theorem literalLines_cons (fresh : Bool) (a : Char) (s : List Char) :
    literalLines column fresh (a :: s) =
      if isBreak a then a :: literalLines column true s
      else (if fresh then spaces column else []) ++ a :: literalLines column false s := rfl

theorem literalLines_breaks (h : ∀ a ∈ s, isBreak a = true) :
    literalLines column true (s ++ t) = s ++ literalLines column true t := by
  induction s with
  | nil => rfl
  | cons a s ih =>
    obtain ⟨ha, hs⟩ := List.forall_mem_cons.1 h
    rw [List.cons_append, literalLines_cons, if_pos ha, ih hs]
    rfl

theorem literalLines_line (h : ∀ a ∈ s, isBreak a = false) :
    literalLines column false (s ++ t) = s ++ literalLines column false t := by
  induction s with
  | nil => rfl
  | cons a s ih =>
    obtain ⟨ha, hs⟩ := List.forall_mem_cons.1 h
    rw [List.cons_append, literalLines_cons, ha, if_neg Bool.false_ne_true,
      if_neg Bool.false_ne_true, ih hs]
    rfl

theorem literalLines_fresh (ha : isBreak a = false) :
    literalLines column true (a :: s) = spaces column ++ literalLines column false (a :: s) := by
  rw [literalLines_cons, literalLines_cons, ha, if_neg Bool.false_ne_true, if_pos rfl,
    if_neg Bool.false_ne_true, if_neg Bool.false_ne_true]
  rfl

theorem head?_literalLines (ha : isBreak a = false) (t : List Char) :
    (literalLines column false (a :: s) ++ t).head? = some a := by
  rw [literalLines_cons, ha]
  rfl

theorem literalLines_break (ha : isBreak a = true) :
    literalLines column false (a :: s) = a :: literalLines column true s := by
  rw [literalLines_cons, if_pos ha]

theorem literalLines_text {line empty more : List Char} (hline : ∀ a ∈ line, isBreak a = false)
    (ha : isBreak a = true) (hempty : ∀ a ∈ empty, isBreak a = true) :
    literalLines column false (line ++ a :: (empty ++ more)) =
      line ++ a :: (empty ++ literalLines column true more) := by
  rw [literalLines_line hline, literalLines_break ha, literalLines_breaks hempty]

theorem literalLines_concat (fresh : Bool) (ha : isBreak a = true) :
    literalLines column fresh (s ++ [a]) = literalLines column fresh s ++ [a] := by
  induction s generalizing fresh with
  | nil => exact if_pos ha
  | cons b s ih =>
    rw [List.cons_append, literalLines_cons, literalLines_cons]
    split
    · rw [ih true, List.cons_append]
    · rw [ih false, List.append_assoc, List.cons_append]

theorem getLast?_literalLines (fresh : Bool) :
    (literalLines column fresh s).getLast? = s.getLast? := by
  induction s generalizing fresh with
  | nil => rfl
  | cons a s ih =>
    rw [literalLines_cons]
    split
    · rw [List.getLast?_cons, ih true, List.getLast?_cons]
    · rw [List.getLast?_append, List.getLast?_cons, ih false, List.getLast?_cons]
      rfl

theorem length_le_literalLines (column : Nat) (fresh : Bool) (s : List Char) :
    s.length ≤ (literalLines column fresh s).length := by
  induction s generalizing fresh with
  | nil => exact Nat.le_refl _
  | cons a s ih =>
    rw [literalLines_cons]
    split
    · exact Nat.succ_le_succ (ih true)
    · rw [List.length_append, List.length_cons, List.length_cons]
      have := ih false
      omega

theorem printable_literalLines (column : Nat) (fresh : Bool) (h : Printable s) :
    Printable (literalLines column fresh s) := by
  induction s generalizing fresh with
  | nil => exact printable_nil
  | cons a s ih =>
    obtain ⟨ha, hs⟩ := printable_cons.1 h
    rw [literalLines_cons]
    split
    · exact printable_cons.2 ⟨ha, ih true hs⟩
    · refine printable_append.2 ⟨?_, printable_cons.2 ⟨ha, ih false hs⟩⟩
      split
      · exact printable_replicate _ (by decide)
      · exact printable_nil

end Printer

namespace Block

open Cursor Printer

variable {column n fuel : Nat} {text body : List Char} {c : Cursor}

/-! ### Headers -/

/-- What the header says of the breaks at the end of a text. -/
def chomping (text : List Char) : Chomping :=
  match text.reverse with
  | a :: b :: _ => if isBreak a then (if isBreak b then .keep else .clip) else .strip
  | [a] => if isBreak a then .keep else .strip
  | [] => .strip

/-- What the header says of the indentation of a text. -/
def increment (text : List Char) : Nat :=
  if text.head?.any (fun a => a == ' ' || isBreak a) then 2 else 0

/-- The mark of a chomping. -/
def mark : Chomping → List Char
  | .strip => ['-']
  | .clip => []
  | .keep => ['+']

theorem literalMarks_eq (text : List Char) : literalMarks text =
    (if increment text = 0 then [] else ['2']) ++ mark (chomping text) := by
  have hfirst : (if text.head?.any (fun a => a == ' ' || isBreak a) then ['2'] else []) =
      if increment text = 0 then [] else ['2'] := by
    unfold increment
    cases text.head?.any (fun a => a == ' ' || isBreak a) <;> rfl
  have hlast : (match text.reverse with
      | a :: b :: _ => if isBreak a then (if isBreak b then ['+'] else []) else ['-']
      | [a] => if isBreak a then ['+'] else ['-']
      | [] => ['-']) = mark (chomping text) := by
    unfold chomping
    cases text.reverse with
    | nil => rfl
    | cons a rest =>
      cases rest with
      | nil => cases h : isBreak a <;> simp [mark, h]
      | cons b rest => cases h : isBreak a <;> cases h' : isBreak b <;> simp [mark, h, h']
  rw [← hfirst, ← hlast]
  rfl

theorem printable_literalMarks (text : List Char) : Printable (literalMarks text) := by
  rw [literalMarks_eq]
  refine printable_append.2 ⟨?_, ?_⟩
  · split
    · exact printable_nil
    · exact printable_cons.2 ⟨rfl, printable_nil⟩
  · cases chomping text <;> simp [mark, Style.isPrintable]

theorem header?_eq (text : List Char) (h : c.rest = literalMarks text ++ '\n' :: body) :
    header? c = some (chomping text, increment text, c.past (literalMarks text ++ ['\n'])) := by
  rw [literalMarks_eq] at h ⊢
  obtain ⟨rest, index, line, col⟩ := c
  subst h
  have hincrement : increment text = 0 ∨ increment text = 2 := by
    unfold increment
    split
    · exact Or.inr rfl
    · exact Or.inl rfl
  rcases hincrement with h | h <;> rw [h] <;> cases chomping text <;> rfl

/-! ### Between lines -/

/-- Whether a text begins with neither a line break nor a tab. -/
def IsLine (body : List Char) : Prop := ∀ a ∈ body.head?, isBreak a = false ∧ a ≠ '\t'

theorem isLine_of_visible (h : ∀ a ∈ body.head?, isSpace a = false) : IsLine body :=
  fun a ha => ⟨isBreak_eq_false (h a ha), by rintro rfl; cases h _ ha⟩

theorem isLine_of_isPrintable {m : Char} (hprint : Style.isPrintable m = true)
    (hm : isBreak m = false) (hbody : body.head? = some m) : IsLine body := by
  intro a ha
  obtain rfl : m = a := Option.some.inj (hbody.symm.trans ha)
  exact ⟨hm, ne_of_isPrintable hprint (by decide)⟩

/-- How many of the spaces at the start of a line are indentation. -/
def indentation (column : Option Nat) (c : Cursor) : Nat :=
  let spaces := (c.rest.takeWhile (· == ' ')).length
  column.elim spaces fun n => min spaces (n - c.column)

theorem interval?_line {given : Option Nat} {breaks : List Char} {widest : Nat}
    (hc : c.rest = spaces n ++ body) (hn : indentation given c = n) (hbody : IsLine body) :
    interval? given (fuel + 1) ⟨breaks, widest, c⟩ =
      some ⟨breaks, max widest (c.column + n), c.skip n⟩ := by
  have hrest : (c.skip n).rest = body := by
    rw [rest_skip, hc, spaces, List.drop_left' List.length_replicate]
  unfold indentation at hn
  unfold interval?
  dsimp only at hn ⊢
  rw [hn, hrest]
  cases body with
  | nil => rfl
  | cons a body =>
    obtain ⟨hbreak, htab⟩ := hbody a rfl
    dsimp only
    rw [beq_eq_false_iff_ne.2 htab, Bool.false_and, if_neg Bool.false_ne_true, hbreak,
      if_neg Bool.false_ne_true]
    rfl

theorem interval?_break {given : Option Nat} {breaks rest : List Char} {widest : Nat} {a : Char}
    (hc : c.rest = a :: rest) (ha : isBreak a = true) (hprint : Style.isPrintable a = true) :
    interval? given (fuel + 1) ⟨breaks, widest, c⟩ =
      interval? given fuel ⟨a :: breaks, max widest c.column, c.newline.2⟩ := by
  have hblank := isBlank_of_isBreak ha
  rw [isBlank_of_isPrintable hprint] at hblank
  have htab : a ≠ '\t' := ne_of_isPrintable hprint (by decide)
  have hnone : indentation given c = 0 := by
    unfold indentation
    rw [hc, List.takeWhile_cons, hblank, if_neg Bool.false_ne_true]
    cases given with
    | none => rfl
    | some column => exact Nat.zero_min _
  unfold indentation at hnone
  rw [interval?]
  dsimp only at hnone ⊢
  rw [hnone, skip_zero, hc]
  dsimp only
  rw [beq_eq_false_iff_ne.2 htab, Bool.false_and, if_neg Bool.false_ne_true, if_pos ha,
    newline_of_isPrintable hc hprint]

/-- Empty lines, and the indentation of the line after them. -/
theorem interval?_lines {given : Option Nat} {empty : List Char} (breaks : List Char)
    (widest : Nat) (hempty : ∀ a ∈ empty, isBreak a = true) (hprintable : Printable empty)
    (hc : c.rest = empty ++ (spaces n ++ body)) (hbody : IsLine body)
    (hn : indentation given (c.past empty) = n) (hfuel : empty.length < fuel) :
    ∃ widest', interval? given fuel ⟨breaks, widest, c⟩ =
      some ⟨empty.reverse ++ breaks, widest', c.past (empty ++ spaces n)⟩ := by
  induction empty generalizing fuel breaks widest c with
  | nil =>
    obtain ⟨fuel, rfl⟩ := Nat.exists_eq_add_one.2 hfuel
    refine ⟨max widest (c.column + n), ?_⟩
    rw [List.nil_append, spaces, past_replicate_space]
    exact interval?_line hc hn hbody
  | cons a empty ih =>
    obtain ⟨fuel, rfl⟩ := Nat.exists_eq_add_one.2 (Nat.zero_lt_of_lt hfuel)
    obtain ⟨ha, hempty⟩ := List.forall_mem_cons.1 hempty
    obtain ⟨hprint, hprintable⟩ := printable_cons.1 hprintable
    have hnext : c.newline.2.rest = empty ++ (spaces n ++ body) := by
      rw [newline_of_isPrintable hc hprint]
      rfl
    rw [past_cons_of_break ha] at hn
    obtain ⟨widest', hread⟩ :=
      ih (a :: breaks) (max widest c.column) hempty hprintable hnext hn
        (Nat.lt_of_succ_lt_succ hfuel)
    refine ⟨widest', (interval?_break hc ha hprint).trans (hread.trans ?_)⟩
    rw [List.reverse_cons, List.append_assoc, List.singleton_append, List.cons_append,
      past_cons_of_break ha]

theorem length_takeWhile_spaces (n : Nat) (body : List Char) :
    ((spaces n ++ body).takeWhile (· == ' ')).length =
      n + (body.takeWhile (· == ' ')).length := by
  have hspaces : ∀ a ∈ spaces n, (a == ' ') = true := fun a ha => by
    rw [List.eq_of_mem_replicate ha]
    rfl
  rw [List.takeWhile_append_of_pos hspaces, List.length_append, spaces, List.length_replicate]

theorem length_takeWhile_line (n : Nat) (hbody : body.head? ≠ some ' ') :
    ((spaces n ++ body).takeWhile (· == ' ')).length = n := by
  have hnone : body.takeWhile (· == ' ') = [] := by
    cases body with
    | nil => rfl
    | cons a body =>
      have ha : a ≠ ' ' := fun heq => hbody (congrArg some heq)
      rw [List.takeWhile_cons, beq_eq_false_iff_ne.2 ha]
      rfl
  rw [length_takeWhile_spaces, hnone]
  rfl

theorem column_past_breaks {s : List Char} (hs : ∀ a ∈ s, isBreak a = true)
    (hprintable : Printable s) (hc : c.rest = s ++ body) (hcolumn : c.column = 0) :
    (c.past s).column = 0 := by
  induction s generalizing c with
  | nil => exact hcolumn
  | cons a s ih =>
    obtain ⟨ha, hs⟩ := List.forall_mem_cons.1 hs
    obtain ⟨hprint, hprintable⟩ := printable_cons.1 hprintable
    rw [past_cons_of_break ha, newline_of_isPrintable hc hprint]
    exact ih hs hprintable rfl rfl

/-! ### Lines -/

/-- All that has been read of a literal block, latest first. -/
def Lines.all (l : Lines) : List Char := l.breaks ++ l.ending ++ l.text

theorem Lines.add_literal (l : Lines) (line ending breaks : List Char) :
    l.add true line ending breaks =
      ⟨line.reverse ++ l.all, ending, breaks, line.head?.any isBlank⟩ := by
  simp [add, all]

theorem lines?_end {l : Lines} (h : c.column ≠ column) :
    lines? true column fuel l c = some (l, c) := by
  cases fuel with
  | zero => rfl
  | succ fuel => exact if_pos (Or.inl h)

theorem lines?_line {l : Lines} {line rest breaks : List Char} {b : Char} {widest : Nat}
    {next : Cursor} (hcolumn : c.column = column) (hc : c.rest = line ++ b :: rest)
    (hline : ∀ a ∈ line, isBreak a = false) (hb : isBreak b = true)
    (hprint : Style.isPrintable b = true)
    (hnext : interval? (some column) (rest.length + 1) ⟨[], 0, (c.skip line.length).newline.2⟩ =
      some ⟨breaks, widest, next⟩) :
    lines? true column (fuel + 1) l c =
      lines? true column fuel (l.add true line [b] breaks) next := by
  have hstop : ¬(c.column ≠ column ∨ c.rest.isEmpty = true) := by
    rw [hc]
    simp [hcolumn]
  have htaken : c.rest.takeWhile (!isBreak ·) = line := by
    rw [hc, List.takeWhile_append_of_pos fun a ha => by rw [hline a ha]; rfl, List.takeWhile_cons,
      hb]
    exact List.append_nil line
  have hrest : (c.skip line.length).rest = b :: rest := by rw [rest_skip, hc, List.drop_left]
  have hspan : c.span (!isBreak ·) = (line, c.skip line.length) := by rw [span, htaken]
  have hnewline := newline_of_isPrintable hrest hprint
  rw [hnewline] at hnext
  rw [lines?, if_neg hstop, hspan]
  dsimp only
  rw [hrest, List.isEmpty_cons, if_neg Bool.false_ne_true, hnewline]
  simp only [bind, hnext, Option.bind_some]

/-- A text is a line, a line break, the breaks of empty lines, and a text after them. -/
theorem exists_line {s : List Char} (hlast : s.getLast?.any isBreak = true) :
    ∃ line b empty more, s = line ++ b :: (empty ++ more) ∧ (∀ a ∈ line, isBreak a = false) ∧
      isBreak b = true ∧ (∀ a ∈ empty, isBreak a = true) ∧ more.head?.any isBreak = false := by
  obtain ⟨line, rest, rfl, hline, hrest⟩ := exists_span (!isBreak ·) s
  have hline : ∀ a ∈ line, isBreak a = false := fun a ha => by simpa using hline a ha
  cases rest with
  | nil =>
    rw [List.append_nil] at hlast
    obtain ⟨a, ha, hbreak⟩ := Option.any_eq_true _ _ |>.1 hlast
    rw [hline a (List.mem_of_getLast? ha)] at hbreak
    cases hbreak
  | cons b rest =>
    obtain ⟨empty, more, rfl, hempty, hmore⟩ := exists_span isBreak rest
    exact ⟨line, b, empty, more, rfl, hline, by simpa using hrest, hempty, hmore⟩

theorem indentation_spaces {column : Nat} (hc : c.rest = spaces n ++ body) (hcolumn : c.column = 0)
    (hn : n = column ∨ n < column ∧ body.head? ≠ some ' ') :
    indentation (some column) c = n := by
  rw [indentation, hc, hcolumn]
  dsimp only [Option.elim_some]
  rcases hn with rfl | ⟨hn, hbody⟩
  · rw [length_takeWhile_spaces]
    omega
  · rw [length_takeWhile_line n hbody]
    omega

/-- One line, and the breaks and indentation after it. -/
theorem lines?_step (fuel : Nat) (l : Lines) {line empty next : List Char} {b : Char}
    (hcolumn : c.column = column) (hc : c.rest = line ++ b :: (empty ++ (spaces n ++ next)))
    (hline : ∀ a ∈ line, isBreak a = false) (hb : isBreak b = true)
    (hempty : ∀ a ∈ empty, isBreak a = true) (hprintable : Printable (b :: empty))
    (hn : n = column ∨ n < column ∧ next.head? ≠ some ' ') (hnext : IsLine next) :
    let after := c.past (line ++ b :: (empty ++ spaces n))
    lines? true column (fuel + 1) l c = lines? true column fuel
        ⟨line.reverse ++ l.all, [b], empty.reverse, line.head?.any isBlank⟩ after ∧
      after.rest = next ∧ after.column = n := by
  obtain ⟨hprint, hprintable⟩ := printable_cons.1 hprintable
  have hskip : (c.skip line.length).rest = b :: (empty ++ (spaces n ++ next)) := by
    rw [rest_skip, hc, List.drop_left]
  have hrest : (c.skip line.length).newline.2.rest = empty ++ (spaces n ++ next) := by
    rw [newline_of_isPrintable hskip hprint]
  have hzero : ((c.skip line.length).newline.2.past empty).column = 0 :=
    column_past_breaks hempty hprintable hrest (by rw [newline_of_isPrintable hskip hprint])
  have hindent := indentation_spaces (rest_past hprintable hrest) hzero hn
  have hlength : empty.length < (empty ++ (spaces n ++ next)).length + 1 := by
    rw [List.length_append]
    omega
  obtain ⟨widest, hread⟩ := interval?_lines [] 0 hempty hprintable hrest hnext hindent hlength
  have hpast : c.past (line ++ b :: (empty ++ spaces n)) =
      ((c.skip line.length).newline.2.past empty).skip n := by
    rw [past_append, past_of_line hline, past_cons_of_break hb, past_append, spaces,
      past_replicate_space]
  refine ⟨?_, ?_, ?_⟩
  · rw [lines?_line hcolumn hc hline hb hprint hread, Lines.add_literal, hpast, past_append,
      spaces, past_replicate_space, List.append_nil]
  · rw [hpast, rest_skip, rest_past hprintable hrest, spaces,
      List.drop_left' List.length_replicate]
  · rw [hpast, column_skip, hzero, Nat.zero_add]

/-- **The lines of a literal block are read one by one**, each with the breaks after it. What is
left in the end are the breaks at the end of the text. -/
theorem lines?_text {s : List Char} {l : Lines} (hprintable : Printable s)
    (hfirst : s.head?.any isBreak = false) (hlast : s.getLast?.any isBreak = true)
    (hcolumn : c.column = column)
    (hc : c.rest = literalLines column false s ++ (spaces n ++ body)) (hn : n < column)
    (hbody : ∀ a ∈ body.head?, isSpace a = false) (hfuel : s.length < fuel) :
    ∃ init a e breaks blank, s = init ++ a :: e :: breaks ∧ isBreak a = false ∧
      isBreak e = true ∧ (∀ a ∈ breaks, isBreak a = true) ∧
      lines? true column fuel l c = some
        (⟨a :: init.reverse ++ l.all, [e], breaks.reverse, blank⟩,
          c.past (literalLines column false s ++ spaces n)) := by
  induction fuel generalizing s l c with
  | zero => exact absurd hfuel (Nat.not_lt_zero _)
  | succ fuel ih =>
    obtain ⟨line, b, empty, more, rfl, hline, hb, hempty, hmore⟩ := exists_line hlast
    rw [literalLines_text hline hb hempty] at hc ⊢
    obtain ⟨-, hprint, hprintableEmpty, hprintableMore⟩ : Printable line ∧
        Style.isPrintable b = true ∧ Printable empty ∧ Printable more := by
      simpa using hprintable
    have hprintableBreaks := printable_cons.2 ⟨hprint, hprintableEmpty⟩
    cases more with
    | nil =>
      simp only [literalLines, List.append_nil, List.append_assoc, List.cons_append] at hc ⊢
      have hspace : body.head? ≠ some ' ' := fun heq => by cases hbody ' ' heq
      obtain ⟨hread, -, hstop⟩ := lines?_step fuel l hcolumn hc hline hb hempty
        hprintableBreaks (Or.inr ⟨hn, hspace⟩) (isLine_of_visible hbody)
      obtain rfl | ⟨init, a, rfl⟩ := List.eq_nil_or_concat line
      · rw [List.nil_append, List.head?_cons, Option.any_some, hb] at hfirst
        cases hfirst
      · refine ⟨init, a, b, empty, (init.concat a).head?.any isBlank, by simp, hline a (by simp),
          hb, hempty, ?_⟩
        rw [hread, lines?_end (by omega)]
        simp
    | cons m more =>
      have hm : isBreak m = false := hmore
      simp only [literalLines_fresh hm, List.append_assoc, List.cons_append] at hc ⊢
      have hisLine : IsLine (literalLines column false (m :: more) ++ (spaces n ++ body)) :=
        isLine_of_isPrintable (printable_cons.1 hprintableMore).1 hm (head?_literalLines hm _)
      obtain ⟨hread, hrest, hnext⟩ := lines?_step fuel l hcolumn hc hline hb
        hempty hprintableBreaks (Or.inl rfl) hisLine
      have hlastMore : (m :: more).getLast?.any isBreak = true := by
        simpa [List.getLast?_append, List.getLast?_cons] using hlast
      simp only [List.length_append, List.length_cons] at hfuel
      obtain ⟨init, a, e, breaks, blank, hmore, ha, he, hbreaks, hlines⟩ :=
        ih hprintableMore hm hlastMore hnext hrest (by rw [List.length_cons]; omega)
      refine ⟨line ++ b :: (empty ++ init), a, e, breaks, blank, by simp [hmore], ha, he, hbreaks,
        ?_⟩
      rw [hread, hlines, ← past_append]
      simp [Lines.all]

/-! ### Texts -/

theorem chomping_strip {init : List Char} {a : Char} (ha : isBreak a = false) :
    chomping (init ++ [a]) = .strip := by
  obtain rfl | ⟨init, b, rfl⟩ := List.eq_nil_or_concat init <;> simp [chomping, ha]

theorem chomping_clip {init : List Char} {a e : Char} (ha : isBreak a = false)
    (he : isBreak e = true) : chomping (init ++ [a, e]) = .clip := by
  simp [chomping, ha, he]

theorem chomping_keep (init : List Char) {a e : Char} (ha : isBreak a = true)
    (he : isBreak e = true) : chomping (init ++ [a, e]) = .keep := by
  simp [chomping, ha, he]

/-- The break that ends the last line of a block, unless its text brings one itself. -/
def lastBreak (text : List Char) : List Char :=
  if text.getLast?.any isBreak then [] else ['\n']

/-- The mark in the header says which of the breaks at the end belong to the text. -/
theorem finish_lines {init breaks : List Char} {a e : Char} {blank : Bool}
    (htext : text ++ lastBreak text = init ++ a :: e :: breaks) (ha : isBreak a = false)
    (he : isBreak e = true) (hbreaks : ∀ b ∈ breaks, isBreak b = true) :
    (⟨a :: init.reverse, [e], breaks.reverse, blank⟩ : Lines).finish (chomping text) =
      text.reverse := by
  unfold lastBreak at htext
  split at htext
  case isTrue hlast =>
    rw [List.append_nil] at htext
    subst htext
    obtain rfl | ⟨breaks, b, rfl⟩ := List.eq_nil_or_concat breaks
    · rw [chomping_clip ha he]
      simp [Lines.finish]
    · have hkeep : chomping (init ++ a :: e :: breaks.concat b) = .keep := by
        have hb : isBreak b = true := hbreaks b (by simp)
        obtain rfl | ⟨breaks, d, rfl⟩ := List.eq_nil_or_concat breaks
        · simpa using chomping_keep (init ++ [a]) he hb
        · have hd : isBreak d = true := hbreaks d (by simp)
          simpa using chomping_keep (init ++ a :: e :: breaks) hd hb
      rw [hkeep]
      simp [Lines.finish]
  case isFalse hlast =>
    obtain rfl | ⟨breaks, b, rfl⟩ := List.eq_nil_or_concat breaks
    · have htext : text ++ ['\n'] = (init ++ [a]) ++ [e] := by simpa using htext
      obtain ⟨rfl, -⟩ := List.append_inj' htext rfl
      rw [chomping_strip ha]
      simp [Lines.finish]
    · have htext : text ++ ['\n'] = (init ++ a :: e :: breaks) ++ [b] := by simpa using htext
      obtain ⟨rfl, -⟩ := List.append_inj' htext rfl
      refine absurd ?_ hlast
      obtain rfl | ⟨breaks, d, rfl⟩ := List.eq_nil_or_concat breaks
      · simp [List.getLast?_append, he]
      · simp [List.getLast?_append, List.getLast?_cons, hbreaks d (by simp)]

/-- A text of line breaks alone keeps all of them. -/
theorem finish_breaks (hne : text ≠ []) (h : ∀ a ∈ text ++ lastBreak text, isBreak a = true) :
    (⟨[], [], (text ++ lastBreak text).reverse, false⟩ : Lines).finish (chomping text) =
      text.reverse := by
  obtain rfl | ⟨init, b, rfl⟩ := List.eq_nil_or_concat text
  · exact absurd rfl hne
  · have hb : isBreak b = true := h b (by simp)
    have hlast : lastBreak (init.concat b) = [] := by simp [lastBreak, hb]
    have hkeep : chomping (init.concat b) = .keep := by
      obtain rfl | ⟨init, d, rfl⟩ := List.eq_nil_or_concat init
      · simp [chomping, hb]
      · have hd : isBreak d = true := h d (by simp)
        simpa using chomping_keep init hd hb
    rw [hlast, hkeep]
    simp [Lines.finish]

/-- The column that the header gives, if it gives one. -/
def given (parent : Nat) (text : List Char) : Option Nat :=
  if increment text = 0 then none else some (parent + increment text)

theorem given_of_mark {parent : Nat} (h : text.head?.any (fun a => a == ' ' || isBreak a) = true) :
    given parent text = some (parent + 2) := by
  rw [given, increment, if_pos h]
  rfl

/-- The column of the first line shows if it begins with neither a space nor a line break. -/
theorem given_of_not_mark {parent : Nat}
    (h : text.head?.any (fun a => a == ' ' || isBreak a) = false) : given parent text = none := by
  rw [given, increment, h]
  rfl

/-- The lines of a block are those of its text, and the break at the end. -/
theorem head?_lastBreak (hne : text ≠ []) (p : Char → Bool) :
    (text ++ lastBreak text).head?.any p = text.head?.any p := by
  obtain ⟨a, rest, rfl⟩ := List.exists_cons_of_ne_nil hne
  rfl

theorem last_lastBreak (text : List Char) :
    (text ++ lastBreak text).getLast?.any isBreak = true := by
  unfold lastBreak
  split
  case isTrue h => rwa [List.append_nil]
  case isFalse => rw [List.getLast?_concat]; rfl

theorem exists_lastBreak (text : List Char) :
    ∃ init b, text ++ lastBreak text = init ++ [b] ∧ isBreak b = true := by
  have hlast := last_lastBreak text
  cases hget : (text ++ lastBreak text).getLast? with
  | none =>
    rw [hget] at hlast
    cases hlast
  | some b =>
    rw [hget] at hlast
    obtain ⟨init, hinit⟩ := List.getLast?_eq_some_iff.1 hget
    exact ⟨init, b, hinit, hlast⟩

theorem printable_lastBreak (h : Printable text) : Printable (text ++ lastBreak text) := by
  refine printable_append.2 ⟨h, ?_⟩
  unfold lastBreak
  split
  · exact printable_nil
  · exact printable_cons.2 ⟨rfl, printable_nil⟩

theorem indentation_none (hc : c.rest = spaces n ++ body) (hbody : body.head? ≠ some ' ') :
    indentation none c = n := by
  rw [indentation, hc, length_takeWhile_line n hbody]
  rfl

/-- The empty lines in front of the first line that is not, and its indentation. -/
theorem interval?_text {parent : Nat} {empty more : List Char} {m : Char}
    (hprintable : Printable text) (hne : text ≠ [])
    (htext : text ++ lastBreak text = empty ++ m :: more)
    (hempty : ∀ a ∈ empty, isBreak a = true) (hm : isBreak m = false) (hcolumn : c.column = 0)
    (hc : c.rest = empty ++ (spaces (parent + 2) ++ body)) (hbody : body.head? = some m)
    (hfuel : empty.length < fuel) :
    ∃ widest, interval? (given parent text) fuel ⟨[], 0, c⟩ =
        some ⟨empty.reverse, widest, c.past (empty ++ spaces (parent + 2))⟩ ∧
      (given parent text).getD (max widest (parent + 1)) = parent + 2 := by
  have hprintable := printable_lastBreak hprintable
  rw [htext, printable_append] at hprintable
  have hisLine : IsLine body :=
    isLine_of_isPrintable (printable_cons.1 hprintable.2).1 hm hbody
  cases hmark : text.head?.any (fun a => a == ' ' || isBreak a) with
  | true =>
    have hindent : indentation (some (parent + 2)) (c.past empty) = parent + 2 :=
      indentation_spaces (rest_past hprintable.1 hc)
        (column_past_breaks hempty hprintable.1 hc hcolumn) (Or.inl rfl)
    obtain ⟨widest, hread⟩ := interval?_lines [] 0 hempty hprintable.1 hc hisLine hindent hfuel
    rw [List.append_nil] at hread
    rw [given_of_mark hmark]
    exact ⟨widest, hread, rfl⟩
  | false =>
    have hgiven : given parent text = none := given_of_not_mark hmark
    -- the first line of the text is not empty
    rw [← head?_lastBreak hne, htext] at hmark
    obtain rfl : empty = [] := by
      cases empty with
      | nil => rfl
      | cons a empty =>
        have ha : isBreak a = true := hempty a (List.mem_cons_self ..)
        simp [ha] at hmark
    obtain ⟨fuel, rfl⟩ := Nat.exists_eq_add_one.2 hfuel
    have hspace : body.head? ≠ some ' ' := by
      intro heq
      obtain rfl : m = ' ' := Option.some.inj (hbody.symm.trans heq)
      cases hmark
    rw [List.nil_append] at hc
    refine ⟨max 0 (c.column + (parent + 2)), ?_, ?_⟩
    · rw [hgiven, interval?_line hc (indentation_none hc hspace) hisLine, List.nil_append, spaces,
        past_replicate_space]
      rfl
    · rw [hgiven, hcolumn, Option.getD_none]
      omega

/-- What is read after the header of a block, up to another cursor, is its text. -/
def Holds (parent : Nat) (text : List Char) (c after : Cursor) : Prop :=
  ∃ i l, interval? (given parent text) (c.rest.length + 1) ⟨[], 0, c⟩ = some i ∧
    lines? true ((given parent text).getD (max i.widest (parent + 1)))
        (i.cursor.rest.length + 1) { breaks := i.breaks } i.cursor = some (l, after) ∧
      l.finish (chomping text) = text.reverse

/-- A block of empty lines. -/
theorem holds_emptyLines {parent : Nat} {next : List Char} (hprintable : Printable text)
    (hne : text ≠ []) (hempty : ∀ a ∈ text ++ lastBreak text, isBreak a = true)
    (hcolumn : c.column = 0) (hc : c.rest = text ++ lastBreak text ++ (spaces n ++ next))
    (hn : n < parent + 2) (hnext : ∀ a ∈ next.head?, isSpace a = false) :
    Holds parent text c (c.past (text ++ lastBreak text ++ spaces n)) := by
  have hprint := printable_lastBreak hprintable
  have hspace : next.head? ≠ some ' ' := fun heq => by cases hnext ' ' heq
  have hmark : text.head?.any (fun a => a == ' ' || isBreak a) = true := by
    obtain ⟨a, rest, rfl⟩ := List.exists_cons_of_ne_nil hne
    have ha : isBreak a = true := hempty a (List.mem_cons_self ..)
    simp [ha]
  have hfuel : (text ++ lastBreak text).length < c.rest.length + 1 := by
    rw [hc]
    simp only [List.length_append]
    omega
  have hzero := column_past_breaks hempty hprint hc hcolumn
  have hindent : indentation (some (parent + 2)) (c.past (text ++ lastBreak text)) = n :=
    indentation_spaces (rest_past hprint hc) hzero (Or.inr ⟨hn, hspace⟩)
  obtain ⟨widest, hread⟩ := interval?_lines [] 0 hempty hprint hc (isLine_of_visible hnext)
    hindent hfuel
  have hstop : (c.past (text ++ lastBreak text ++ spaces n)).column ≠ parent + 2 := by
    rw [past_append, spaces, past_replicate_space, column_skip, hzero]
    omega
  unfold Holds
  rw [given_of_mark hmark]
  refine ⟨_, _, hread, lines?_end hstop, ?_⟩
  rw [List.append_nil]
  exact finish_breaks hne hempty

/-- A block with a line that is not empty. -/
theorem holds_lines {parent : Nat} {next empty more : List Char} {m : Char}
    (hprintable : Printable text) (hne : text ≠ [])
    (htext : text ++ lastBreak text = empty ++ m :: more)
    (hempty : ∀ a ∈ empty, isBreak a = true) (hm : isBreak m = false) (hcolumn : c.column = 0)
    (hc : c.rest = empty ++ (spaces (parent + 2) ++
      (literalLines (parent + 2) false (m :: more) ++ (spaces n ++ next))))
    (hn : n < parent + 2) (hnext : ∀ a ∈ next.head?, isSpace a = false) :
    Holds parent text c (c.past (empty ++ (spaces (parent + 2) ++
      literalLines (parent + 2) false (m :: more)) ++ spaces n)) := by
  have hprint := printable_lastBreak hprintable
  rw [htext, printable_append] at hprint
  have hfuel : empty.length < c.rest.length + 1 := by
    rw [hc, List.length_append]
    omega
  obtain ⟨widest, hinterval, hgiven⟩ := interval?_text hprintable hne htext hempty hm hcolumn hc
    (head?_literalLines hm _) hfuel
  have hfirst : (c.past (empty ++ spaces (parent + 2))).rest =
      literalLines (parent + 2) false (m :: more) ++ (spaces n ++ next) :=
    rest_past (printable_append.2 ⟨hprint.1, printable_replicate _ rfl⟩)
      (hc.trans (List.append_assoc ..).symm)
  have hfirstColumn : (c.past (empty ++ spaces (parent + 2))).column = parent + 2 := by
    rw [past_append, spaces, past_replicate_space, column_skip,
      column_past_breaks hempty hprint.1 hc hcolumn, Nat.zero_add]
  have hlast : (m :: more).getLast?.any isBreak = true := by
    have hlast := last_lastBreak text
    rw [htext, List.getLast?_append, List.getLast?_cons] at hlast
    rw [List.getLast?_cons]
    exact hlast
  have hlength :
      (m :: more).length < (c.past (empty ++ spaces (parent + 2))).rest.length + 1 := by
    have hle := length_le_literalLines (parent + 2) false (m :: more)
    rw [hfirst, List.length_append]
    omega
  obtain ⟨init, a, e, breaks, blank, hsplit, ha, he, hbreaks, hlines⟩ :=
    lines?_text (l := { breaks := empty.reverse }) hprint.2 hm hlast hfirstColumn hfirst hn hnext
      hlength
  refine ⟨⟨empty.reverse, widest, c.past (empty ++ spaces (parent + 2))⟩,
    ⟨a :: (empty ++ init).reverse, [e], breaks.reverse, blank⟩, hinterval, ?_, ?_⟩
  · dsimp only
    rw [hgiven, hlines, ← past_append]
    simp [Lines.all]
  · refine finish_lines ?_ ha he hbreaks
    rw [htext, hsplit, List.append_assoc]

/-- What is read after the header. -/
theorem holds_literal {parent : Nat} {next : List Char} (hprintable : Printable text)
    (hne : text ≠ []) (hcolumn : c.column = 0)
    (hc : c.rest = literalLines (parent + 2) true (text ++ lastBreak text) ++ (spaces n ++ next))
    (hn : n < parent + 2) (hnext : ∀ a ∈ next.head?, isSpace a = false) :
    Holds parent text c
      (c.past (literalLines (parent + 2) true (text ++ lastBreak text) ++ spaces n)) := by
  obtain ⟨empty, more, htext, hempty, hmore⟩ := exists_span isBreak (text ++ lastBreak text)
  have hlines : literalLines (parent + 2) true (text ++ lastBreak text) =
      empty ++ literalLines (parent + 2) true more := by
    rw [htext, literalLines_breaks hempty]
  cases more with
  | nil =>
    rw [List.append_nil] at htext
    rw [literalLines, List.append_nil, ← htext] at hlines
    rw [hlines] at hc ⊢
    exact holds_emptyLines hprintable hne (htext ▸ hempty) hcolumn hc hn hnext
  | cons m more =>
    rw [literalLines_fresh hmore] at hlines
    rw [hlines] at hc ⊢
    exact holds_lines hprintable hne htext hempty hmore hcolumn (by simpa using hc) hn hnext

/-- A literal block with the end of its last line. -/
theorem endLine_literal {parent : Nat} (hne : text ≠ []) :
    endLine ('|' :: literalMarks text ++ '\n' :: literalLines (parent + 2) true text) =
      '|' :: (literalMarks text ++ '\n' ::
        literalLines (parent + 2) true (text ++ lastBreak text)) := by
  have hlast : ('|' :: literalMarks text ++ '\n' ::
      literalLines (parent + 2) true text).getLast? = text.getLast? := by
    rw [List.getLast?_append, List.getLast?_cons, getLast?_literalLines,
      List.getLast?_eq_some_getLast hne]
    rfl
  unfold endLine lastBreak
  rw [hlast]
  split
  case isTrue => rw [List.append_nil, List.cons_append]
  case isFalse => rw [literalLines_concat true rfl, List.cons_append, List.cons_append,
    List.append_assoc, List.cons_append]

/-- The cursor past a literal block and the indentation after it. -/
theorem past_literal {parent : Nat} {next : List Char} (hprintable : Printable text)
    (hc : c.rest = '|' :: (literalMarks text ++ '\n' ::
      (literalLines (parent + 2) true (text ++ lastBreak text) ++ (spaces n ++ next)))) :
    let after := c.past ('|' :: (literalMarks text ++ '\n' ::
      (literalLines (parent + 2) true (text ++ lastBreak text) ++ spaces n)))
    after.rest = next ∧ after.column = n := by
  have hlines := printable_literalLines (parent + 2) true (printable_lastBreak hprintable)
  obtain ⟨init, b, hlast, hb⟩ := exists_lastBreak text
  rw [hlast, literalLines_concat true hb] at hc hlines ⊢
  have hinit : Printable ('|' :: (literalMarks text ++ '\n' ::
      literalLines (parent + 2) true init)) :=
    printable_cons.2 ⟨rfl, printable_append.2 ⟨printable_literalMarks text,
      printable_cons.2 ⟨rfl, (printable_append.1 hlines).1⟩⟩⟩
  have hprint : Style.isPrintable b = true := (printable_cons.1 (printable_append.1 hlines).2).1
  have hsplit : '|' :: (literalMarks text ++ '\n' ::
      (literalLines (parent + 2) true init ++ [b] ++ spaces n)) =
        '|' :: (literalMarks text ++ '\n' :: literalLines (parent + 2) true init) ++
          (b :: List.replicate n ' ') := by
    simp only [spaces, List.cons_append, List.append_assoc, List.nil_append]
  have hrest : (c.past ('|' :: (literalMarks text ++ '\n' ::
      literalLines (parent + 2) true init))).rest = b :: (spaces n ++ next) :=
    rest_past hinit (by
      rw [hc]
      simp only [List.cons_append, List.append_assoc, List.nil_append])
  rw [hsplit, past_append, past_indent hrest hprint hb]
  exact ⟨List.drop_left' List.length_replicate, rfl⟩

/-- **A literal block is read back.** -/
theorem read?_literal {parent : Nat} {next : List Char} (hprintable : Printable text)
    (hne : text ≠ [])
    (hc : c.rest = '|' :: (literalMarks text ++ '\n' ::
      (literalLines (parent + 2) true (text ++ lastBreak text) ++ (spaces n ++ next))))
    (hn : n < parent + 2) (hnext : ∀ a ∈ next.head?, isSpace a = false) :
    read? true (some parent) c = some (String.ofList text, c.past ('|' :: (literalMarks text ++
      '\n' :: (literalLines (parent + 2) true (text ++ lastBreak text) ++ spaces n)))) := by
  have hmarks : Printable (literalMarks text ++ ['\n']) :=
    printable_append.2 ⟨printable_literalMarks text, printable_cons.2 ⟨rfl, printable_nil⟩⟩
  have hheader : (c.skip 1).rest = literalMarks text ++ '\n' ::
      (literalLines (parent + 2) true (text ++ lastBreak text) ++ (spaces n ++ next)) := by
    rw [rest_skip, hc, List.drop_one, List.tail_cons]
  have hrest : ((c.skip 1).past (literalMarks text ++ ['\n'])).rest =
      literalLines (parent + 2) true (text ++ lastBreak text) ++ (spaces n ++ next) :=
    rest_past hmarks (by rw [hheader, List.append_assoc, List.singleton_append])
  have hcolumn : ((c.skip 1).past (literalMarks text ++ ['\n'])).column = 0 := by
    have hbreak : ((c.skip 1).past (literalMarks text)).rest = '\n' ::
        (literalLines (parent + 2) true (text ++ lastBreak text) ++ (spaces n ++ next)) :=
      rest_past (printable_literalMarks text) hheader
    have hnewline : isBreak '\n' = true := rfl
    rw [past_append, past_cons_of_break hnewline, newline_of_isPrintable hbreak rfl]
    rfl
  obtain ⟨i, l, hinterval, hlines, hfinish⟩ := holds_literal hprintable hne hcolumn hrest hn hnext
  have hpast : c.past ('|' :: (literalMarks text ++ '\n' ::
      (literalLines (parent + 2) true (text ++ lastBreak text) ++ spaces n))) =
        ((c.skip 1).past (literalMarks text ++ ['\n'])).past
          (literalLines (parent + 2) true (text ++ lastBreak text) ++ spaces n) := by
    rw [past_cons_of_line rfl, ← past_append, List.append_assoc, List.singleton_append]
  unfold read?
  rw [advance_eq_skip, header?_eq text hheader, hpast]
  simp only [bind, Option.bind_some]
  have hgiven : (if increment text = 0 then none
      else some ((some parent).getD 0 + increment text)) = given parent text := rfl
  rw [hgiven, hinterval]
  simp only [Option.bind_some, Option.elim_some, hlines, pure, hfinish, List.reverse_reverse]

end Block

end Flowgraph.Yaml
