import Flowgraph.Proofs.Yaml.Cursor
import Flowgraph.Proofs.Yaml.Plain
import Flowgraph.Yaml.Printer
import Flowgraph.Yaml.Token.Quoted

/-!
# Reading single-quoted scalars back

Between single quotes a text is words without spaces, and gaps that are either spaces or line
breaks. The printer indents the line after a gap of line breaks, which the reader passes over.
-/

set_option autoImplicit false

namespace Flowgraph.Yaml

namespace Printer

variable {column : Nat} {s t : List Char}

/-- A text between single quotes, with quotes written twice. -/
def doubled (text : List Char) : List Char :=
  text.flatMap fun a => if a = '\'' then ['\'', '\''] else [a]

theorem doubled_cons (a : Char) (s : List Char) :
    doubled (a :: s) = (if a = '\'' then ['\'', '\''] else [a]) ++ doubled s :=
  List.flatMap_cons

theorem doubled_append (s t : List Char) : doubled (s ++ t) = doubled s ++ doubled t :=
  List.flatMap_append

theorem doubled_of_not_mem (h : '\'' ∉ s) : doubled s = s := by
  induction s with
  | nil => rfl
  | cons a s ih =>
    have ha : a ≠ '\'' := fun heq => h (heq ▸ List.mem_cons_self ..)
    rw [doubled_cons, if_neg ha]
    exact congrArg (a :: ·) (ih fun hmem => h (List.mem_cons_of_mem _ hmem))

theorem mem_doubled {a : Char} (h : a ∈ doubled s) : a ∈ s := by
  simp only [doubled, List.mem_flatMap] at h
  obtain ⟨b, hb, ha⟩ := h
  split at ha
  case isTrue heq =>
    simp only [List.mem_cons, List.not_mem_nil, or_false, or_self] at ha
    rwa [ha, ← heq]
  case isFalse => rwa [List.mem_singleton.1 ha]

theorem head?_doubled (s : List Char) : (doubled s).head? = s.head? := by
  cases s with
  | nil => rfl
  | cons a s =>
    rw [doubled_cons]
    split
    case isTrue heq => exact congrArg some heq.symm
    case isFalse => rfl

theorem length_le_doubled (s : List Char) : s.length ≤ (doubled s).length := by
  induction s with
  | nil => exact Nat.le_refl _
  | cons a s ih =>
    rw [doubled_cons, List.length_append, List.length_cons, Nat.add_comm]
    refine Nat.add_le_add ?_ ih
    split <;> simp

theorem printable_doubled (h : Printable s) : Printable (doubled s) :=
  fun a ha => h a (mem_doubled ha)

theorem indentLines_cons (a : Char) (s : List Char) :
    indentLines column (a :: s) =
      if isBreak a ∧ ¬s.head?.any isBreak then a :: spaces column ++ indentLines column s
      else a :: indentLines column s := rfl

theorem printable_indentLines (h : Printable s) : Printable (indentLines column s) := by
  induction s with
  | nil => exact printable_nil
  | cons a s ih =>
    obtain ⟨ha, hs⟩ := printable_cons.1 h
    rw [indentLines_cons]
    split
    · exact printable_append.2
        ⟨printable_cons.2 ⟨ha, printable_replicate _ (by decide)⟩, ih hs⟩
    · exact printable_cons.2 ⟨ha, ih hs⟩

theorem length_le_indentLines (s : List Char) : s.length ≤ (indentLines column s).length := by
  induction s with
  | nil => exact Nat.le_refl _
  | cons a s ih =>
    rw [indentLines_cons]
    split <;> simp only [List.length_cons, List.length_append, List.cons_append] <;> omega

theorem head?_indentLines (s : List Char) : (indentLines column s).head? = s.head? := by
  cases s with
  | nil => rfl
  | cons a s =>
    rw [indentLines_cons]
    split <;> rfl

theorem indentLines_of_line (h : ∀ a ∈ s, isBreak a = false) :
    indentLines column (s ++ t) = s ++ indentLines column t := by
  induction s with
  | nil => rfl
  | cons a s ih =>
    obtain ⟨ha, hs⟩ := List.forall_mem_cons.1 h
    rw [List.cons_append, indentLines_cons, if_neg (by simp [ha]), ih hs, List.cons_append]

/-- The line after a gap of line breaks is indented. -/
theorem indentLines_of_breaks (h : ∀ a ∈ s, isBreak a = true) (hne : s ≠ [])
    (ht : t.head?.any isBreak = false) :
    indentLines column (s ++ t) = s ++ (spaces column ++ indentLines column t) := by
  induction s with
  | nil => exact absurd rfl hne
  | cons a s ih =>
    obtain ⟨ha, hs⟩ := List.forall_mem_cons.1 h
    rw [List.cons_append, indentLines_cons]
    cases s with
    | nil =>
      rw [List.nil_append, if_pos ⟨ha, by rw [ht]; decide⟩]
      rfl
    | cons b s =>
      have hb : isBreak b = true := hs b (List.mem_cons_self ..)
      rw [if_neg (by simp [hb]), ih hs (List.cons_ne_nil _ _)]
      rfl

/-- A line is printed as it is, -/
theorem indentLines_line (h : ∀ a ∈ s, isBreak a = false) : indentLines column s = s := by
  have hline : indentLines column (s ++ []) = s ++ indentLines column [] := indentLines_of_line h
  rwa [List.append_nil, indentLines, List.append_nil] at hline

/-- and so are line breaks, with the indentation of what comes after them. -/
theorem indentLines_breaks (h : ∀ a ∈ s, isBreak a = true) (hne : s ≠ []) :
    indentLines column s = s ++ spaces column := by
  have hbreaks : indentLines column (s ++ []) = s ++ (spaces column ++ indentLines column []) :=
    indentLines_of_breaks h hne rfl
  rwa [List.append_nil, indentLines, List.append_nil] at hbreaks

end Printer

namespace Quoted

open Cursor Printer

variable {text tail : List Char} {c : Cursor} {fuel column : Nat}

/-- Words with gaps between them that are all spaces or all line breaks. -/
structure Fit (text : List Char) : Prop where
  printable : Printable text
  line : '\n' ∉ text
  before : Style.meets (· == ' ') isBreak text = false
  behind : Style.meets isBreak (· == ' ') text = false

theorem fit_of_allowsSingle (h : Style.allowsSingle text = true) (hline : '\n' ∉ text) :
    Fit text := by
  simp only [Style.allowsSingle, Style.needsEscape, Bool.and_eq_true, Bool.not_eq_true',
    Bool.or_eq_false_iff] at h
  obtain ⟨⟨hprintable, hbefore⟩, hbehind⟩ := h
  exact ⟨fun a ha => by simpa using List.any_eq_false.1 hprintable a ha, hline, hbefore, hbehind⟩

theorem Fit.append_right {s t : List Char} (h : Fit (s ++ t)) : Fit t :=
  ⟨(printable_append.1 h.printable).2, fun hmem => h.line (List.mem_append_right _ hmem),
    Style.meets_append_right h.before, Style.meets_append_right h.behind⟩

theorem Fit.append_left {s t : List Char} (h : Fit (s ++ t)) : Fit s :=
  ⟨(printable_append.1 h.printable).1, fun hmem => h.line (List.mem_append_left _ hmem),
    Style.meets_append_left h.before, Style.meets_append_left h.behind⟩

/-- A gap is all spaces or all line breaks. -/
theorem Fit.gap {gap more : List Char} (h : Fit (gap ++ more))
    (hgap : ∀ a ∈ gap, isSpace a = true) :
    (∀ a ∈ gap, a = ' ') ∨ ∀ a ∈ gap, isBreak a = true := by
  induction gap with
  | nil => exact Or.inl (List.forall_mem_nil _)
  | cons a gap ih =>
    obtain ⟨ha, hgap⟩ := List.forall_mem_cons.1 hgap
    have hprint : Style.isPrintable a = true := h.printable a (List.mem_cons_self ..)
    have hkind : a = ' ' ∨ isBreak a = true := by
      rw [isSpace, isBlank_of_isPrintable hprint] at ha
      simpa using ha
    cases gap with
    | nil => simpa using hkind
    | cons b gap =>
      have hrest := ih (h.append_right (s := [a])) hgap
      rcases hkind with rfl | hbreak
      · refine hrest.imp (fun hall => List.forall_mem_cons.2 ⟨rfl, hall⟩) fun hall => ?_
        have hb := Style.not_of_meets (s := []) h.before rfl
        rw [hall b (List.mem_cons_self ..)] at hb
        cases hb
      · refine hrest.imp (fun hall => ?_) fun hall => List.forall_mem_cons.2 ⟨hbreak, hall⟩
        have hb := Style.not_of_meets (s := []) h.behind hbreak
        rw [hall b (List.mem_cons_self ..)] at hb
        cases hb

theorem Fit.gap_self {gap : List Char} (h : Fit gap) (hgap : ∀ a ∈ gap, isSpace a = true) :
    (∀ a ∈ gap, a = ' ') ∨ ∀ a ∈ gap, isBreak a = true := by
  rw [← List.append_nil gap] at h
  exact h.gap hgap

/-- Whether a word ends in front of a text: at a gap, or at a quote that is not written twice. -/
def Closes (after : List Char) : Prop :=
  after.head?.any isSpace = true ∨ ∃ tail, after = '\'' :: tail ∧ tail.head? ≠ some '\''

theorem word?_close {after done : List Char} (hc : c.rest = after) (h : Closes after) :
    word? '\'' (fuel + 1) done c = some (done, false, c) := by
  rw [word?, hc]
  rcases h with hspace | ⟨tail, rfl, htail⟩
  · cases after with
    | nil => rfl
    | cons a rest => exact if_pos hspace
  · have hquote : isSpace '\'' = false := rfl
    dsimp only
    rw [hquote, if_neg Bool.false_ne_true, if_pos rfl, if_neg fun hboth => htail hboth.2]

/-- A word is read up to the gap or the quote after it. -/
theorem word?_single {word after : List Char} (done : List Char)
    (hword : ∀ a ∈ word, isSpace a = false) (hc : c.rest = doubled word ++ after)
    (hafter : Closes after) (hfuel : word.length < fuel) :
    word? '\'' fuel done c =
      some (word.reverse ++ done, false, c.skip (doubled word).length) := by
  induction word generalizing fuel done c with
  | nil =>
    obtain ⟨fuel, rfl⟩ := Nat.exists_eq_add_one.2 hfuel
    exact word?_close hc hafter
  | cons a word ih =>
    obtain ⟨fuel, rfl⟩ := Nat.exists_eq_add_one.2 (Nat.zero_lt_of_lt hfuel)
    obtain ⟨ha, hwords⟩ := List.forall_mem_cons.1 hword
    have hlength : word.length < fuel := Nat.lt_of_succ_lt_succ hfuel
    by_cases hquote : a = '\''
    · subst hquote
      have hdoubled : doubled ('\'' :: word) = '\'' :: '\'' :: doubled word := rfl
      rw [hdoubled] at hc ⊢
      have hnext : (c.skip 2).rest = doubled word ++ after := by
        rw [rest_skip, hc]
        rfl
      rw [word?, hc]
      dsimp only [List.cons_append]
      rw [ha, if_neg Bool.false_ne_true, if_pos rfl, if_pos ⟨rfl, rfl⟩,
        ih ('\'' :: done) hwords hnext hlength, skip_skip, List.reverse_cons, List.append_assoc]
      rw [Nat.add_comm 2]
      rfl
    · have hdoubled : doubled (a :: word) = a :: doubled word := by
        rw [doubled_cons, if_neg hquote]
        rfl
      rw [hdoubled] at hc ⊢
      have hnext : (c.skip 1).rest = doubled word ++ after := by
        rw [rest_skip, hc]
        rfl
      have hescape : ¬(a = '\\' ∧ '\'' = '"') := fun hboth => absurd hboth.2 (by decide)
      rw [word?, hc]
      dsimp only [List.cons_append]
      rw [ha, if_neg Bool.false_ne_true, if_neg hquote, if_neg hescape, advance_eq_skip,
        ih (a :: done) hwords hnext hlength, skip_skip, List.reverse_cons, List.append_assoc,
        List.length_cons, Nat.add_comm 1]
      rfl

/-- A gap is printed as it stands, with the line after its line breaks indented. -/
theorem indentLines_gap {gap rest : List Char} (hfit : Fit gap)
    (hgap : ∀ a ∈ gap, isSpace a = true) (hrest : rest.head?.any isSpace = false) :
    indentLines column (gap ++ rest) = indentLines column gap ++ indentLines column rest := by
  rcases hfit.gap_self hgap with hspaces | hbreaks
  · have hline : ∀ a ∈ gap, isBreak a = false := fun a ha => by
      rw [hspaces a ha]
      rfl
    rw [indentLines_of_line hline, indentLines_line hline]
  · cases hempty : gap with
    | nil => rfl
    | cons a breaks =>
      have hne : gap ≠ [] := by simp [hempty]
      have hvisible : rest.head?.any isBreak = false := by
        cases rest with
        | nil => rfl
        | cons b rest => exact isBreak_eq_false hrest
      rw [← hempty, indentLines_of_breaks hbreaks hne hvisible, indentLines_breaks hbreaks hne,
        List.append_assoc]

/-- A gap counts as it stands in the text, the indentation after it aside. -/
theorem read?_gap {gap : List Char} (hfit : Fit gap) (hgap : ∀ a ∈ gap, isSpace a = true)
    (hne : gap ≠ []) (htail : tail.head?.any isSpace = false)
    (hc : c.rest = indentLines column gap ++ tail) (hcolumn : c.column ≠ 0)
    (hindent : column ≠ 0) :
    ∃ g : Gap, Gap.read? 0 c.rest.length {} c = some (g, c.past (indentLines column gap)) ∧
      g.text = gap.reverse ∧ (c.past (indentLines column gap)).column ≠ 0 := by
  rcases hfit.gap_self hgap with hspaces | hbreaks
  · have hline : indentLines column gap = gap := by
      refine indentLines_line fun a ha => ?_
      rw [hspaces a ha]
      rfl
    have hgap : gap = List.replicate gap.length ' ' := List.eq_replicate_iff.2 ⟨rfl, hspaces⟩
    rw [hline] at hc ⊢
    rw [hgap] at hc ⊢
    refine ⟨{ blanks := List.replicate gap.length ' ' }, ?_, ?_, ?_⟩
    · rw [past_replicate_space]
      refine (Gap.read?_spaces [] htail hc ?_).trans (by rw [List.append_nil])
      rw [hc, List.length_append, List.length_replicate]
      exact Nat.le_add_right _ _
    · rw [List.reverse_replicate]
      rfl
    · rw [past_replicate_space, column_skip]
      omega
  · obtain ⟨a, breaks, rfl⟩ := List.exists_cons_of_ne_nil hne
    rw [indentLines_breaks hbreaks hne] at hc ⊢
    obtain ⟨ha, hbreaks⟩ := List.forall_mem_cons.1 hbreaks
    obtain ⟨hprint, hprintable⟩ := printable_cons.1 hfit.printable
    refine ⟨⟨[], true, some a, breaks.reverse⟩, Gap.read?_lines ha hprint hbreaks hprintable
      htail (by rw [hc, List.append_assoc]; rfl) ?_, ?_, ?_⟩
    · rw [hc, List.length_append, List.length_append, spaces, List.length_replicate,
        List.length_cons]
      omega
    · have hfirst : a ≠ '\n' := fun heq => hfit.line (heq ▸ List.mem_cons_self ..)
      rw [List.reverse_cons, Gap.text]
      simp only [Bool.not_true, Bool.false_eq_true, if_false]
      split
      case h_1 heq => exact absurd (Option.some.inj heq) hfirst
      case h_2 => rfl
    · rw [past_append, spaces, past_replicate_space, column_skip]
      omega

/-- A text between quotes as it is printed. -/
def printed (column : Nat) (text : List Char) : List Char := indentLines column (doubled text)

/-- A text is a word, and a gap and a text after it unless the word is all there is. -/
theorem exists_word (text : List Char) :
    ∃ word gap more, text = word ++ (gap ++ more) ∧ (∀ a ∈ word, isSpace a = false) ∧
      (∀ a ∈ gap, isSpace a = true) ∧ more.head?.any isSpace = false ∧
      (gap = [] → more = []) := by
  obtain ⟨word, rest, rfl, hword, hrest⟩ := exists_span (!isSpace ·) text
  obtain ⟨gap, more, rfl, hgap, hmore⟩ := exists_span isSpace rest
  refine ⟨word, gap, more, rfl, fun a ha => by simpa using hword a ha, hgap, hmore, ?_⟩
  rintro rfl
  cases more with
  | nil => rfl
  | cons a more =>
    simp only [List.nil_append, List.head?_cons, Option.any_some] at hrest hmore
    rw [hmore] at hrest
    cases hrest

theorem printed_word {word gap more : List Char} (hfit : Fit gap)
    (hword : ∀ a ∈ word, isSpace a = false) (hgap : ∀ a ∈ gap, isSpace a = true)
    (hmore : more.head?.any isSpace = false) :
    printed column (word ++ (gap ++ more)) =
      doubled word ++ (indentLines column gap ++ printed column more) := by
  have hquote : '\'' ∉ gap := fun hmem => absurd (hgap _ hmem) (by decide)
  have hline : ∀ a ∈ doubled word, isBreak a = false := fun a ha =>
    isBreak_eq_false (hword a (mem_doubled ha))
  rw [printed, doubled_append, doubled_append, indentLines_of_line hline,
    doubled_of_not_mem hquote, indentLines_gap hfit hgap (by rwa [head?_doubled])]
  rfl

/-! ### Texts -/

section Word

variable {quote a : Char} {done word : List Char} {after : Cursor} {rest : List Char}

/-- The text ends at the quote after a word, -/
theorem words?_close (hdocument : c.atDocument = false)
    (hword : word? quote (c.rest.length + 1) done c = some (word, false, after))
    (hafter : after.rest = quote :: rest) :
    words? quote (fuel + 1) done c = some (word, after.skip 1) := by
  rw [words?, hdocument, if_neg Bool.false_ne_true, hword]
  simp only [bind, Option.bind_some, hafter, if_true, advance_eq_skip]
  rfl

/-- and goes on after any other gap. -/
theorem words?_gap {g : Gap} {next : Cursor} (hdocument : c.atDocument = false)
    (hword : word? quote (c.rest.length + 1) done c = some (word, false, after))
    (hafter : after.rest = a :: rest) (hquote : a ≠ quote)
    (hgap : Gap.read? 0 after.rest.length {} after = some (g, next)) :
    words? quote (fuel + 1) done c = words? quote fuel (g.text ++ word) next := by
  rw [words?, hdocument, if_neg Bool.false_ne_true, hword]
  rw [hafter] at hgap
  simp only [bind, Option.bind_some, hafter, hquote, if_false, hgap]

end Word

/-- A gap begins with a space. -/
theorem head_indentLines_gap (column : Nat) (a : Char) (gap rest : List Char) :
    ∃ more, indentLines column (a :: gap) ++ rest = a :: more := by
  rw [indentLines_cons]
  split
  · exact ⟨_, rfl⟩
  · exact ⟨_, rfl⟩

/-- **A text between single quotes is read word by word.** -/
theorem words?_single (h : Fit text) (done : List Char)
    (hc : c.rest = printed column text ++ '\'' :: tail) (htail : tail.head? ≠ some '\'')
    (hcolumn : c.column ≠ 0) (hindent : column ≠ 0) (hfuel : text.length < fuel) :
    words? '\'' fuel done c =
      some (text.reverse ++ done, (c.past (printed column text)).skip 1) := by
  induction fuel generalizing text done c with
  | zero => exact absurd hfuel (Nat.not_lt_zero _)
  | succ fuel ih =>
    obtain ⟨word, gap, more, rfl, hword, hgap, hmore, hall⟩ := exists_word text
    have hfit : Fit gap := h.append_right.append_left
    have hline : ∀ a ∈ doubled word, isBreak a = false := fun a ha =>
      isBreak_eq_false (hword a (mem_doubled ha))
    rw [printed_word hfit hword hgap hmore, List.append_assoc, List.append_assoc] at hc
    rw [printed_word hfit hword hgap hmore, past_append, past_of_line hline]
    have hafter : (c.skip (doubled word).length).rest =
        indentLines column gap ++ (printed column more ++ '\'' :: tail) := by
      rw [rest_skip, hc, List.drop_left]
    have hlength : word.length < c.rest.length + 1 := by
      rw [hc, List.length_append]
      have hdoubled := length_le_doubled word
      omega
    have hdocument := atDocument_of_column hcolumn
    have hvisible : (printed column more ++ '\'' :: tail).head?.any isSpace = false := by
      have hhead : (printed column more).head? = more.head? :=
        (head?_indentLines _).trans (head?_doubled more)
      rw [List.head?_append, hhead]
      cases more with
      | nil => rfl
      | cons b more => exact hmore
    cases gap with
    | nil =>
      obtain rfl := hall rfl
      have hclose : Closes (indentLines column [] ++ (printed column [] ++ '\'' :: tail)) :=
        Or.inr ⟨tail, rfl, htail⟩
      rw [words?_close hdocument (word?_single done hword hc hclose hlength) hafter,
        List.append_nil, List.append_nil]
      rfl
    | cons a gap =>
      have hspace : isSpace a = true := hgap a (List.mem_cons_self ..)
      obtain ⟨others, hfirst⟩ := head_indentLines_gap column a gap
        (printed column more ++ '\'' :: tail)
      have hclose : Closes (indentLines column (a :: gap) ++
          (printed column more ++ '\'' :: tail)) := by
        rw [hfirst]
        exact Or.inl hspace
      obtain ⟨g, hread, htext, hnext⟩ := read?_gap hfit hgap (List.cons_ne_nil _ _) hvisible
        hafter (by rw [column_skip]; omega) hindent
      rw [words?_gap hdocument (word?_single done hword hc hclose hlength)
        (hafter.trans hfirst) (by rintro rfl; cases hspace) hread,
        ih h.append_right.append_right (g.text ++ (word.reverse ++ done)) _ hnext, htext,
        past_append]
      · simp
      · simp only [List.length_append, List.length_cons] at hfuel
        omega
      · exact rest_past (printable_indentLines hfit.printable) hafter

/-- **A text between single quotes is read back.** -/
theorem read?_single (h : Fit text)
    (hc : c.rest = '\'' :: (printed column text ++ '\'' :: tail)) (htail : tail.head? ≠ some '\'')
    (hindent : column ≠ 0) :
    read? '\'' c =
      some (String.ofList text, c.past ('\'' :: (printed column text ++ ['\'']))) := by
  have hrest : (c.skip 1).rest = printed column text ++ '\'' :: tail := by
    rw [rest_skip, hc]
    rfl
  have hlength : text.length < (c.skip 1).rest.length + 1 := by
    have hprinted : text.length ≤ (printed column text).length :=
      Nat.le_trans (length_le_doubled text) (length_le_indentLines _)
    rw [hrest, List.length_append]
    omega
  have hquote : isBreak '\'' = false := rfl
  rw [read?, advance_eq_skip, words?_single h [] hrest htail (Nat.succ_ne_zero _) hindent hlength,
    past_cons_of_line hquote, past_append, past_cons_of_line hquote, List.append_nil]
  simp only [bind, Option.bind_some, List.reverse_reverse]
  rfl

end Quoted

end Flowgraph.Yaml
