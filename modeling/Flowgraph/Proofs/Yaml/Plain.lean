import Flowgraph.Proofs.Yaml.Cursor
import Flowgraph.Yaml.Token.Plain

/-!
# Reading plain scalars back

A text that may stand by itself is words with spaces between them (`Plain.Fit`). A word ends at the
space after it, and the last word at the colon after a key or at the end of the line; the reader
goes from word to word and gives the text as it was written (`words?_text`).
-/

set_option autoImplicit false

namespace Flowgraph.Yaml

namespace Style

variable {p q : Char → Bool} {ends : List Char → Bool} {s t : List Char}

theorem somewhere_append_right (h : somewhere p ends (s ++ t) = false) :
    somewhere p ends t = false := by
  induction s with
  | nil => exact h
  | cons a s ih => exact ih (Bool.or_eq_false_iff.1 h).2

theorem meets_cons (a b : Char) (s : List Char) :
    meets p q (a :: b :: s) = (p a && q b || meets p q (b :: s)) := rfl

theorem meets_append_right (h : meets p q (s ++ t) = false) : meets p q t = false := by
  induction s with
  | nil => exact h
  | cons a s ih =>
    refine ih ?_
    cases hst : s ++ t with
    | nil => rfl
    | cons b rest =>
      rw [List.cons_append, hst, meets_cons] at h
      exact (Bool.or_eq_false_iff.1 h).2

theorem meets_append_left (h : meets p q (s ++ t) = false) : meets p q s = false := by
  induction s with
  | nil => rfl
  | cons a s ih =>
    cases s with
    | nil => rfl
    | cons b s =>
      obtain ⟨hfirst, hnext⟩ := Bool.or_eq_false_iff.1 h
      exact Bool.or_eq_false_iff.2 ⟨hfirst, ih hnext⟩

/-- What follows a character is not of a kind that it does not meet. -/
theorem not_of_meets {a b : Char} (h : meets p q (s ++ a :: b :: t) = false) (ha : p a = true) :
    q b = false := by
  have hmeets := (Bool.or_eq_false_iff.1 ((meets_cons a b t).symm.trans (meets_append_right h))).1
  rwa [ha, Bool.true_and] at hmeets

end Style

namespace Plain

open Cursor

variable {text tail : List Char} {c : Cursor} {floor fuel : Nat}

/-- Words with spaces between them that a plain scalar does not end within. -/
structure Fit (text : List Char) : Prop where
  blank : ∀ a ∈ text, isSpace a = true → a = ' '
  colon : Style.somewhere (· == ':') endsWord text = false
  comment : Style.meets isSpace (· == '#') text = false
  head : ∀ a ∈ text.head?, isSpace a = false ∧ a ≠ '#'
  last : text.getLast? ≠ some ' '

/-- A text that may stand by itself is fit to. -/
theorem fit_of_allowsPlain (h : Style.allowsPlain text = true) : Fit text := by
  simp only [Style.allowsPlain, Style.needsEscape, Style.isMarked, Bool.and_eq_true,
    Bool.not_eq_true', Bool.or_eq_false_iff, bne_iff_ne, ne_eq] at h
  obtain ⟨⟨⟨⟨⟨hprintable, -⟩, hbreak⟩, hfirst⟩, hlast⟩,
    ⟨⟨⟨-, hmark⟩, -⟩, hcolon⟩, hcomment⟩ := h
  have hblank : ∀ a ∈ text, isSpace a = true → a = ' ' := by
    intro a ha hspace
    have hprint : Style.isPrintable a = true := by
      simpa using List.any_eq_false.1 hprintable a ha
    have hline : isBreak a = false := by
      simpa using List.any_eq_false.1 hbreak a ha
    rw [isSpace, hline, Bool.or_false, isBlank_of_isPrintable hprint] at hspace
    exact beq_iff_eq.1 hspace
  refine ⟨hblank, hcolon, hcomment, fun a ha => ⟨?_, ?_⟩, hlast⟩
  · rw [Bool.eq_false_iff]
    intro hspace
    obtain rfl := hblank a (List.mem_of_mem_head? ha) hspace
    exact hfirst ha
  · rintro rfl
    rw [show text.head? = some '#' from ha] at hmark
    cases hmark

/-! ### Words -/

theorem isMisplaced_false (text : List Char) : isMisplaced false text = false := by
  unfold isMisplaced
  split <;> rfl

theorem ends_cons_false {a : Char} {rest : List Char} (ha : isSpace a = false)
    (hcolon : a = ':' → endsWord rest = false) : ends false (a :: rest) = false := by
  unfold ends
  split
  case h_1 heq => cases heq
  case h_2 heq =>
    obtain ⟨rfl, rfl⟩ := List.cons.inj heq
    exact hcolon rfl
  case h_3 heq =>
    obtain ⟨rfl, rfl⟩ := List.cons.inj heq
    rw [ha]
    rfl

theorem endsWord_append (h : endsWord text = false) : endsWord (text ++ tail) = false := by
  cases text with
  | nil => cases h
  | cons a text => exact h

theorem word?_eq {word after : List Char} (done : List Char) (h : c.rest = word ++ after)
    (hspace : ∀ a ∈ word, isSpace a = false)
    (hcolon : Style.somewhere (· == ':') endsWord word = false) (hend : ends false after = true)
    (hfuel : word.length ≤ fuel) :
    word? false fuel done c = some (word.reverse ++ done, c.skip word.length) := by
  induction word generalizing fuel done c with
  | nil =>
    cases fuel with
    | zero => rfl
    | succ fuel =>
      rw [word?, h, isMisplaced_false, if_neg Bool.false_ne_true]
      exact if_pos hend
  | cons a word ih =>
    obtain ⟨fuel, rfl⟩ := Nat.exists_eq_add_one.2 (Nat.zero_lt_of_lt hfuel)
    obtain ⟨ha, hspace⟩ := List.forall_mem_cons.1 hspace
    obtain ⟨hfirst, hcolon⟩ := Bool.or_eq_false_iff.1 hcolon
    have hnext : (c.skip 1).rest = word ++ after := by
      rw [rest_skip, h]
      rfl
    have hword : ends false (a :: word ++ after) = false := by
      refine ends_cons_false ha ?_
      rintro rfl
      exact endsWord_append hfirst
    rw [word?, h, isMisplaced_false, if_neg Bool.false_ne_true, hword, if_neg Bool.false_ne_true,
      advance_eq_skip]
    refine (ih (a :: done) hnext hspace hcolon (Nat.le_of_succ_le_succ hfuel)).trans ?_
    rw [skip_skip, List.reverse_cons, List.append_assoc, List.singleton_append, Nat.add_comm 1]
    rfl

/-- A word is fit to be read if what it stands in is. -/
theorem somewhere_word {p : Char → Bool} {word rest : List Char} (hrest : endsWord rest = true)
    (h : Style.somewhere p endsWord (word ++ rest) = false) :
    Style.somewhere p endsWord word = false := by
  induction word with
  | nil => rfl
  | cons a word ih =>
    obtain ⟨hfirst, hnext⟩ := Bool.or_eq_false_iff.1 h
    have hends : (p a && endsWord word) = false := by
      cases word with
      | nil => exact (congrArg (p a && ·) hrest.symm).trans hfirst
      | cons b word => exact hfirst
    exact Bool.or_eq_false_iff.2 ⟨hends, ih hnext⟩

/-- A text is a word, and spaces and a text after it unless the word is all there is. -/
theorem Fit.exists_word (h : Fit text) (hne : text ≠ []) :
    ∃ word n more, text = word ++ (List.replicate n ' ' ++ more) ∧ word ≠ [] ∧
      (∀ a ∈ word, isSpace a = false) ∧
      Style.somewhere (· == ':') endsWord word = false ∧
      (n = 0 ∧ more = [] ∨ 0 < n ∧ more ≠ [] ∧ Fit more) := by
  obtain ⟨word, rest, rfl, hword, hrest⟩ := exists_span (!isSpace ·) text
  obtain ⟨gap, more, rfl, hgap, hmore⟩ := exists_span isSpace rest
  have hspaces : gap = List.replicate gap.length ' ' :=
    List.eq_replicate_iff.2 ⟨rfl, fun a ha => h.blank a (by simp [ha]) (hgap a ha)⟩
  have hspace : ∀ a ∈ word, isSpace a = false := fun a ha => by simpa using hword a ha
  have hends : endsWord (gap ++ more) = true := by
    cases hcases : gap ++ more with
    | nil => rfl
    | cons a _ =>
      rw [hcases] at hrest
      exact Bool.not_eq_eq_eq_not.1 hrest
  have hword : word ≠ [] := by
    rintro rfl
    rw [List.nil_append] at h hne
    obtain ⟨a, rest, hcons⟩ := List.exists_cons_of_ne_nil hne
    rw [hcons] at hends h
    rw [endsWord, List.head?_cons, Option.all_some, (h.head a rfl).1] at hends
    cases hends
  refine ⟨word, gap.length, more, by rw [← hspaces], hword, hspace,
    somewhere_word hends h.colon, ?_⟩
  rcases List.eq_nil_or_concat gap with rfl | ⟨init, b, rfl⟩
  · cases more with
    | nil => exact Or.inl ⟨rfl, rfl⟩
    | cons a more =>
      rw [List.nil_append, endsWord, List.head?_cons, Option.all_some] at hends
      rw [List.head?_cons, Option.any_some, hends] at hmore
      cases hmore
  · obtain rfl : b = ' ' := h.blank b (by simp) (hgap b (by simp))
    have hlast := h.last
    cases more with
    | nil => exact absurd (by simp) hlast
    | cons a more =>
      have hsplit : word ++ (init.concat ' ' ++ a :: more) =
          (word ++ init) ++ ' ' :: a :: more := by simp
      refine Or.inr ⟨by simp, List.cons_ne_nil _ _, ?_, ?_, ?_, ?_, ?_⟩
      · exact fun c hc => h.blank c (by
          rw [hsplit]
          exact List.mem_append_right _ (List.mem_cons_of_mem _ hc))
      · exact Style.somewhere_append_right (Style.somewhere_append_right h.colon)
      · exact Style.meets_append_right (Style.meets_append_right h.comment)
      · rintro c hc
        obtain rfl : a = c := Option.some.inj hc
        have hcomment := h.comment
        rw [hsplit] at hcomment
        have hother := Style.not_of_meets hcomment (by decide)
        exact ⟨hmore, beq_eq_false_iff_ne.1 hother⟩
      · simpa using hlast

/-! ### Texts -/

/-- What is done after a word. -/
def after? (floor fuel : Nat) (done : List Char) (c : Cursor) : Option Result :=
  if c.rest.head?.any isSpace then do
    let (gap, c) ← Gap.read? floor c.rest.length {} c
    if c.column < floor then return ⟨done, gap.broken, c⟩
    else words? false floor fuel done gap c
  else return ⟨done, false, c⟩

theorem words?_word {word after done : List Char} {gap : Gap} (hc : c.rest = word ++ after)
    (hne : word ≠ []) (hspace : ∀ a ∈ word, isSpace a = false)
    (hcolon : Style.somewhere (· == ':') endsWord word = false) (hend : ends false after = true)
    (hdocument : c.atDocument = false) (hhead : word.head? ≠ some '#') :
    words? false floor (fuel + 1) done gap c =
      after? floor fuel (word.reverse ++ (gap.text ++ done)) (c.skip word.length) := by
  have hcomment : (c.rest.head? == some '#') = false := by
    obtain ⟨a, rest, rfl⟩ := List.exists_cons_of_ne_nil hne
    rw [hc]
    exact beq_eq_false_iff_ne.2 hhead
  have hfuel : word.length ≤ c.rest.length := by
    rw [hc, List.length_append]
    exact Nat.le_add_right _ _
  rw [words?, hdocument, hcomment, Bool.or_self, if_neg Bool.false_ne_true,
    word?_eq [] hc hspace hcolon hend hfuel]
  simp only [bind, Option.bind_some, List.append_nil, List.isEmpty_reverse,
    List.isEmpty_eq_false_iff.2 hne, Bool.false_eq_true, if_false, Bool.not_false, Bool.true_and,
    decide_eq_true_eq, after?, pure]

theorem after?_end {done : List Char} (h : c.rest.head?.any isSpace = false) :
    after? floor fuel done c = some ⟨done, false, c⟩ := by
  rw [after?, h, if_neg Bool.false_ne_true]
  rfl

/-- Spaces within a line are a gap between words, -/
theorem after?_spaces {done : List Char} {n : Nat} (htail : tail.head?.any isSpace = false)
    (hc : c.rest = List.replicate (n + 1) ' ' ++ tail) (hcolumn : floor ≤ c.column + (n + 1)) :
    after? floor fuel done c =
      words? false floor fuel done { blanks := List.replicate (n + 1) ' ' } (c.skip (n + 1)) := by
  have hspace : c.rest.head?.any isSpace = true := by
    rw [hc]
    rfl
  have hlength : n + 1 ≤ c.rest.length := by
    rw [hc, List.length_append, List.length_replicate]
    exact Nat.le_add_right _ _
  have hgap : Gap.read? floor c.rest.length {} c =
      some ({ blanks := List.replicate (n + 1) ' ' ++ [] }, c.skip (n + 1)) :=
    Gap.read?_spaces [] htail hc hlength
  rw [List.append_nil] at hgap
  rw [after?, hspace, if_pos rfl, hgap]
  simp only [bind, Option.bind_some, column_skip, Nat.not_lt.2 hcolumn, if_false]

/-- and the line ends at a line break if the next line is not indented. -/
theorem after?_line {done : List Char} {n : Nat} (htail : tail.head?.any isSpace = false)
    (hc : c.rest = '\n' :: (List.replicate n ' ' ++ tail)) (hfloor : n < floor) :
    after? floor fuel done c =
      some ⟨done, true, c.past ('\n' :: List.replicate n ' ')⟩ := by
  have hspace : c.rest.head?.any isSpace = true := by
    rw [hc]
    rfl
  have hlength : 0 + n < c.rest.length := by
    rw [hc, List.length_cons, List.length_append, List.length_replicate]
    omega
  have hbreak : isBreak '\n' = true := rfl
  have hprint : Style.isPrintable '\n' = true := rfl
  have hgap : Gap.read? floor c.rest.length {} c = _ :=
    Gap.read?_lines hbreak hprint (List.forall_mem_nil _) printable_nil htail hc hlength
  have hcolumn : (c.past ('\n' :: List.replicate n ' ')).column < floor := by
    rwa [past_indent hc hprint hbreak]
  rw [after?, hspace, if_pos rfl, hgap]
  simp only [bind, Option.bind_some, List.singleton_append, hcolumn, if_true]
  rfl

/-- **A text is read word by word**, up to what is done after its last word. -/
theorem words?_text (h : Fit text) (hne : text ≠ []) (done : List Char) (gap : Gap)
    (hc : c.rest = text ++ tail) (hend : ends false tail = true) (hfuel : text.length < fuel)
    (hdocument : c.atDocument = false) (hcolumn : floor ≤ c.column + 1) :
    ∃ fuel', words? false floor fuel done gap c =
      after? floor fuel' (text.reverse ++ (gap.text ++ done)) (c.skip text.length) := by
  induction fuel generalizing text done gap c with
  | zero => exact absurd hfuel (Nat.not_lt_zero _)
  | succ fuel ih =>
    obtain ⟨word, n, more, htext, hword, hspace, hcolon, hmore⟩ := h.exists_word hne
    have hhead : word.head? ≠ some '#' := by
      obtain ⟨a, rest, rfl⟩ := List.exists_cons_of_ne_nil hword
      exact fun heq => (h.head '#' (htext ▸ heq)).2 rfl
    rcases hmore with ⟨rfl, rfl⟩ | ⟨hn, hmoreNe, hmore⟩
    · obtain rfl : text = word := by simpa using htext
      exact ⟨fuel, words?_word hc hword hspace hcolon hend hdocument hhead⟩
    · obtain ⟨n, rfl⟩ := Nat.exists_eq_add_one.2 hn
      have hlength : text.length = word.length + (n + 1) + more.length := by
        simp only [htext, List.length_append, List.length_replicate, Nat.add_assoc]
      have hrest : c.rest = word ++ (List.replicate (n + 1) ' ' ++ (more ++ tail)) := by
        rw [hc, htext, List.append_assoc, List.append_assoc]
      have hafter : (c.skip word.length).rest = List.replicate (n + 1) ' ' ++ (more ++ tail) := by
        rw [rest_skip, hrest, List.drop_left]
      have hvisible : (more ++ tail).head?.any isSpace = false := by
        obtain ⟨a, rest, rfl⟩ := List.exists_cons_of_ne_nil hmoreNe
        exact (hmore.head a rfl).1
      have hnext : (c.skip (word.length + (n + 1))).rest = more ++ tail := by
        rw [← skip_skip, rest_skip, hafter, List.drop_left' List.length_replicate]
      obtain ⟨fuel', hread⟩ := ih hmore hmoreNe (word.reverse ++ (gap.text ++ done))
        { blanks := List.replicate (n + 1) ' ' } hnext (by omega)
        (atDocument_of_column (by rw [column_skip]; omega)) (by rw [column_skip]; omega)
      refine ⟨fuel', ?_⟩
      rw [words?_word hrest hword hspace hcolon rfl hdocument hhead,
        after?_spaces hvisible hafter (by rw [column_skip]; omega), skip_skip, hread, skip_skip,
        hlength, htext]
      have hgap : Gap.text { blanks := List.replicate (n + 1) ' ' } =
          List.replicate (n + 1) ' ' := rfl
      simp only [hgap, List.reverse_append, List.reverse_replicate, List.append_assoc,
        Nat.add_assoc]

/-- A key is read up to its colon, -/
theorem read?_key (h : Style.allowsPlain text = true) (hne : text ≠ [])
    (hc : c.rest = text ++ ':' :: tail) (htail : endsWord tail = true)
    (hdocument : c.atDocument = false) (hcolumn : floor ≤ c.column + 1) :
    read? false floor c = some (String.ofList text, false, c.skip text.length) := by
  have hfuel : text.length < c.rest.length + 1 := by
    rw [hc, List.length_append]
    omega
  have hrest : (c.skip text.length).rest = ':' :: tail := by rw [rest_skip, hc, List.drop_left]
  obtain ⟨fuel, hread⟩ := words?_text (fit_of_allowsPlain h) hne [] {} hc htail hfuel hdocument
    hcolumn
  rw [read?, hread, after?_end (by rw [hrest]; rfl), Option.map_some]
  have hgap : Gap.text {} = [] := rfl
  rw [hgap, List.append_nil, List.append_nil, List.reverse_reverse]

/-- and any text up to the end of its line. -/
theorem read?_line {n : Nat} (h : Style.allowsPlain text = true) (hne : text ≠ [])
    (hc : c.rest = text ++ '\n' :: (List.replicate n ' ' ++ tail))
    (htail : tail.head?.any isSpace = false) (hfloor : n < floor)
    (hdocument : c.atDocument = false) (hcolumn : floor ≤ c.column + 1) :
    read? false floor c = some (String.ofList text, true,
      (c.skip text.length).past ('\n' :: List.replicate n ' ')) := by
  have hfuel : text.length < c.rest.length + 1 := by
    rw [hc, List.length_append]
    omega
  have hrest : (c.skip text.length).rest = '\n' :: (List.replicate n ' ' ++ tail) := by
    rw [rest_skip, hc, List.drop_left]
  obtain ⟨fuel, hread⟩ := words?_text (fit_of_allowsPlain h) hne [] {} hc rfl hfuel hdocument
    hcolumn
  rw [read?, hread, after?_line htail hrest hfloor, Option.map_some]
  have hgap : Gap.text {} = [] := rfl
  rw [hgap, List.append_nil, List.append_nil, List.reverse_reverse]

end Plain

end Flowgraph.Yaml
