import Flowgraph.Yaml.Style
import Flowgraph.Yaml.Token.Gap

/-!
# Cursors over printed text

What is printed is made of printable characters. Among them the only blank is the space, and every
line break counts as itself. `Cursor.past` is the cursor past some printed text, and a gap of
blanks, or of line breaks and the indentation after them, is read as what it counts as.
-/

set_option autoImplicit false

namespace Flowgraph.Yaml

/-! ### Printable characters -/

section Printable

variable {a : Char} {s : List Char}

/-- Whether a text is made of printable characters. -/
def Printable (s : List Char) : Prop := ∀ a ∈ s, Style.isPrintable a = true

@[simp] theorem printable_nil : Printable [] := List.forall_mem_nil _

@[simp] theorem printable_cons : Printable (a :: s) ↔ Style.isPrintable a = true ∧ Printable s :=
  List.forall_mem_cons

@[simp] theorem printable_append {t : List Char} :
    Printable (s ++ t) ↔ Printable s ∧ Printable t :=
  List.forall_mem_append

theorem printable_replicate (n : Nat) (h : Style.isPrintable a = true) :
    Printable (List.replicate n a) :=
  fun b hb => by rwa [List.eq_of_mem_replicate hb]

theorem ne_of_isPrintable {b : Char} (h : Style.isPrintable a = true)
    (hb : Style.isPrintable b = false) : a ≠ b := by
  rintro rfl
  rw [h] at hb
  cases hb

theorem isAllowed_of_isPrintable (h : Style.isPrintable a = true) : isAllowed a = true := by
  simp only [Style.isPrintable, Bool.or_eq_true, Bool.and_eq_true, beq_iff_eq, bne_iff_ne,
    decide_eq_true_eq] at h
  simp only [isAllowed, Bool.or_eq_true, Bool.and_eq_true, beq_iff_eq, decide_eq_true_eq]
  omega

/-- The only printable blank is the space. -/
theorem isBlank_of_isPrintable (h : Style.isPrintable a = true) : isBlank a = (a == ' ') := by
  have htab : a ≠ '\t' := ne_of_isPrintable h (by decide)
  rw [isBlank, beq_eq_false_iff_ne.2 htab, Bool.or_false]

end Printable

/-- A text is some characters of a kind and a text that does not begin with one. -/
theorem exists_span (p : Char → Bool) (text : List Char) :
    ∃ s t, text = s ++ t ∧ (∀ a ∈ s, p a = true) ∧ t.head?.any p = false := by
  induction text with
  | nil => exact ⟨[], [], rfl, List.forall_mem_nil _, rfl⟩
  | cons a text ih =>
    cases ha : p a with
    | false => exact ⟨[], a :: text, rfl, List.forall_mem_nil _, ha⟩
    | true =>
      obtain ⟨s, t, rfl, hs, ht⟩ := ih
      exact ⟨a :: s, t, rfl, List.forall_mem_cons.2 ⟨ha, hs⟩, ht⟩

theorem isBreak_eq_false {a : Char} (h : isSpace a = false) : isBreak a = false :=
  (Bool.or_eq_false_iff.1 h).2

theorem isBlank_eq_false {a : Char} (h : isSpace a = false) : isBlank a = false :=
  (Bool.or_eq_false_iff.1 h).1

theorem isBlank_of_isBreak {a : Char} (h : isBreak a = true) : isBlank a = false := by
  simp only [isBreak, Bool.or_eq_true, beq_iff_eq] at h
  rcases h with (((rfl | rfl) | rfl) | rfl) | rfl <;> rfl

namespace Cursor

variable {c : Cursor} {s tail : List Char} {a : Char}

/-! ### Moving within a line -/

@[simp] theorem rest_skip (c : Cursor) (n : Nat) : (c.skip n).rest = c.rest.drop n := rfl

@[simp] theorem index_skip (c : Cursor) (n : Nat) : (c.skip n).index = c.index + n := rfl

@[simp] theorem line_skip (c : Cursor) (n : Nat) : (c.skip n).line = c.line := rfl

@[simp] theorem column_skip (c : Cursor) (n : Nat) : (c.skip n).column = c.column + n := rfl

theorem advance_eq_skip (c : Cursor) : c.advance = c.skip 1 := by
  rw [advance, skip, List.drop_one]

theorem skip_zero (c : Cursor) : c.skip 0 = c := rfl

theorem skip_skip (c : Cursor) (m n : Nat) : (c.skip m).skip n = c.skip (m + n) := by
  simp only [skip, List.drop_drop, Nat.add_assoc]

theorem atDocument_of_column (h : c.column ≠ 0) : c.atDocument = false := by
  have hcolumn : (c.column == 0) = false := beq_eq_false_iff_ne.2 h
  simp only [atDocument, atBound, hcolumn, Bool.false_and, Bool.or_self]

/-! ### Moving past printed text -/

/-- The cursor past a text, with every line break of the text the end of a line. -/
def past (c : Cursor) : List Char → Cursor
  | [] => c
  | a :: s => (if isBreak a then c.newline.2 else c.advance).past s

theorem past_append (c : Cursor) (s t : List Char) : c.past (s ++ t) = (c.past s).past t := by
  induction s generalizing c with
  | nil => rfl
  | cons a s ih => exact ih _

theorem past_cons (c : Cursor) (a : Char) (s : List Char) :
    c.past (a :: s) = (if isBreak a then c.newline.2 else c.advance).past s := rfl

theorem past_cons_of_line (h : isBreak a = false) : c.past (a :: s) = (c.skip 1).past s := by
  rw [past_cons, h, if_neg Bool.false_ne_true, advance_eq_skip]

theorem past_cons_of_break (h : isBreak a = true) : c.past (a :: s) = c.newline.2.past s := by
  rw [past_cons, if_pos h]

/-- A printable line break counts as itself, and is a character by itself. -/
theorem newline_of_isPrintable (h : c.rest = a :: tail) (ha : Style.isPrintable a = true) :
    c.newline = (a, ⟨tail, c.index + 1, c.line + 1, 0⟩) := by
  have hreturn : a ≠ '\r' := ne_of_isPrintable ha (by decide)
  have hnext : a ≠ '\u0085' := ne_of_isPrintable ha (by decide)
  unfold newline
  rw [h]
  split
  case h_1 heq => exact absurd (List.cons.inj heq).1 hreturn
  case h_2 heq =>
    obtain ⟨rfl, rfl⟩ := List.cons.inj heq
    rw [beq_eq_false_iff_ne.2 hreturn, beq_eq_false_iff_ne.2 hnext]
    rfl
  case h_3 heq => cases heq

theorem rest_past (hs : Printable s) (h : c.rest = s ++ tail) : (c.past s).rest = tail := by
  induction s generalizing c with
  | nil => exact h
  | cons a s ih =>
    obtain ⟨ha, hs⟩ := printable_cons.1 hs
    refine ih hs ?_
    split
    · rw [newline_of_isPrintable h ha]
      rfl
    · exact congrArg List.tail h

/-- Within a line the cursor only counts characters. -/
theorem past_of_line (h : ∀ a ∈ s, isBreak a = false) : c.past s = c.skip s.length := by
  induction s generalizing c with
  | nil => rfl
  | cons a s ih =>
    obtain ⟨ha, hs⟩ := List.forall_mem_cons.1 h
    rw [past_cons_of_line ha, ih hs, skip_skip, Nat.add_comm, List.length_cons]

theorem line_le_newline (c : Cursor) : c.line ≤ c.newline.2.line := by
  unfold newline
  split
  · exact Nat.le_succ _
  · exact Nat.le_succ _
  · exact Nat.le_refl _

theorem line_le_past (c : Cursor) (s : List Char) : c.line ≤ (c.past s).line := by
  induction s generalizing c with
  | nil => exact Nat.le_refl _
  | cons a s ih =>
    refine Nat.le_trans ?_ (ih _)
    split
    · exact line_le_newline c
    · exact Nat.le_refl _

theorem past_replicate_space (c : Cursor) (n : Nat) :
    c.past (List.replicate n ' ') = c.skip n := by
  have hspaces : ∀ b ∈ List.replicate n ' ', isBreak b = false := fun b hb => by
    rw [List.eq_of_mem_replicate hb]
    rfl
  rw [past_of_line hspaces, List.length_replicate]

/-- Past a line break and some spaces. -/
theorem past_indent (h : c.rest = a :: tail) (ha : Style.isPrintable a = true)
    (hbreak : isBreak a = true) (n : Nat) : c.past (a :: List.replicate n ' ') =
      ⟨tail.drop n, c.index + 1 + n, c.line + 1, n⟩ := by
  rw [past_cons_of_break hbreak, past_replicate_space, newline_of_isPrintable h ha]
  exact congrArg (Cursor.mk _ _ _) (Nat.zero_add n)

end Cursor

/-! ### Gaps -/

namespace Gap

open Cursor

variable {floor fuel n : Nat} {g : Gap} {c : Cursor} {a : Char} {tail : List Char}

theorem read?_end (h : tail.head?.any isSpace = false) (hc : c.rest = tail) :
    read? floor fuel g c = some (g, c) := by
  cases fuel with
  | zero => rfl
  | succ fuel =>
    unfold read?
    rw [hc]
    cases tail with
    | nil => rfl
    | cons a tail =>
      have ha : isSpace a = false := h
      dsimp only
      rw [isBlank_eq_false ha, isBreak_eq_false ha, if_neg Bool.false_ne_true,
        if_neg Bool.false_ne_true]

theorem read?_space (hc : c.rest = ' ' :: tail) :
    read? floor (fuel + 1) g c = read? floor fuel (g.blank ' ') (c.skip 1) := by
  have hblank : isBlank ' ' = true := rfl
  have htab : (' ' == '\t') = false := rfl
  rw [read?, hc]
  dsimp only
  rw [hblank, htab, Bool.and_false, if_pos rfl, if_neg Bool.false_ne_true, advance_eq_skip]

theorem read?_break (hc : c.rest = a :: tail) (ha : Style.isPrintable a = true)
    (hbreak : isBreak a = true) :
    read? floor (fuel + 1) g c = read? floor fuel (g.line a) c.newline.2 := by
  rw [read?, hc]
  dsimp only
  rw [isBlank_of_isBreak hbreak, if_neg Bool.false_ne_true, if_pos hbreak,
    newline_of_isPrintable hc ha]

/-- Spaces within a line count as they stand. -/
theorem read?_spaces (blanks : List Char) (h : tail.head?.any isSpace = false)
    (hc : c.rest = List.replicate n ' ' ++ tail) (hfuel : n ≤ fuel) :
    read? floor fuel { blanks := blanks } c =
      some ({ blanks := List.replicate n ' ' ++ blanks }, c.skip n) := by
  induction n generalizing fuel blanks c with
  | zero => exact read?_end h hc
  | succ n ih =>
    obtain ⟨fuel, rfl⟩ := Nat.exists_eq_add_one.2 (Nat.zero_lt_of_lt hfuel)
    have hnext : (c.skip 1).rest = List.replicate n ' ' ++ tail := by
      rw [rest_skip, hc]
      rfl
    have hblanks :
        List.replicate n ' ' ++ ' ' :: blanks = List.replicate (n + 1) ' ' ++ blanks := by
      rw [List.replicate_succ', List.append_assoc, List.singleton_append]
    rw [read?_space (by rw [hc]; rfl)]
    exact (ih (' ' :: blanks) hnext (Nat.le_of_succ_le_succ hfuel)).trans
      (by rw [skip_skip, Nat.add_comm 1 n, hblanks])

/-- Spaces at the start of a line do not count. -/
theorem read?_indent (hg : g.broken = true) (h : tail.head?.any isSpace = false)
    (hc : c.rest = List.replicate n ' ' ++ tail) (hfuel : n ≤ fuel) :
    read? floor fuel g c = some (g, c.skip n) := by
  induction n generalizing fuel c with
  | zero => exact read?_end h hc
  | succ n ih =>
    obtain ⟨fuel, rfl⟩ := Nat.exists_eq_add_one.2 (Nat.zero_lt_of_lt hfuel)
    have hnext : (c.skip 1).rest = List.replicate n ' ' ++ tail := by
      rw [rest_skip, hc]
      rfl
    have hblank : g.blank ' ' = g := by
      rw [blank, hg]
      rfl
    rw [read?_space (by rw [hc]; rfl), hblank, ih hnext (Nat.le_of_succ_le_succ hfuel), skip_skip,
      Nat.add_comm 1 n]

/-- Line breaks after the first one count as they are. -/
theorem read?_breaks {breaks : List Char} (first : Option Char) (more : List Char)
    (hbreaks : ∀ a ∈ breaks, isBreak a = true) (hprintable : Printable breaks)
    (h : tail.head?.any isSpace = false) (hc : c.rest = breaks ++ (List.replicate n ' ' ++ tail))
    (hfuel : breaks.length + n ≤ fuel) :
    read? floor fuel ⟨[], true, first, more⟩ c =
      some (⟨[], true, first, breaks.reverse ++ more⟩,
        c.past (breaks ++ List.replicate n ' ')) := by
  induction breaks generalizing fuel more c with
  | nil =>
    rw [List.nil_append, past_replicate_space]
    exact read?_indent rfl h hc (by simpa using hfuel)
  | cons a breaks ih =>
    obtain ⟨ha, hbreaks⟩ := List.forall_mem_cons.1 hbreaks
    obtain ⟨hprint, hprintable⟩ := printable_cons.1 hprintable
    rw [List.length_cons, Nat.add_right_comm] at hfuel
    obtain ⟨fuel, rfl⟩ := Nat.exists_eq_add_one.2 (Nat.zero_lt_of_lt hfuel)
    have hnext : c.newline.2.rest = breaks ++ (List.replicate n ' ' ++ tail) := by
      rw [newline_of_isPrintable hc hprint]
      rfl
    rw [read?_break (by rw [hc]; rfl) hprint ha]
    refine (ih (a :: more) hbreaks hprintable hnext (Nat.le_of_succ_le_succ hfuel)).trans ?_
    rw [List.reverse_cons, List.append_assoc, List.singleton_append, List.cons_append,
      past_cons_of_break ha]

/-- A gap of line breaks, with the indentation of the line after it. -/
theorem read?_lines {breaks : List Char} (hbreak : isBreak a = true)
    (hprint : Style.isPrintable a = true) (hbreaks : ∀ a ∈ breaks, isBreak a = true)
    (hprintable : Printable breaks) (h : tail.head?.any isSpace = false)
    (hc : c.rest = a :: breaks ++ (List.replicate n ' ' ++ tail))
    (hfuel : breaks.length + n < fuel) :
    read? floor fuel {} c = some (⟨[], true, some a, breaks.reverse⟩,
      c.past (a :: breaks ++ List.replicate n ' ')) := by
  obtain ⟨fuel, rfl⟩ := Nat.exists_eq_add_one.2 (Nat.zero_lt_of_lt hfuel)
  have hnext : c.newline.2.rest = breaks ++ (List.replicate n ' ' ++ tail) := by
    rw [newline_of_isPrintable hc hprint]
    rfl
  rw [read?_break (by rw [hc]; rfl) hprint hbreak]
  refine (read?_breaks (some a) [] hbreaks hprintable h hnext
    (Nat.le_of_lt_succ hfuel)).trans ?_
  rw [List.append_nil, List.cons_append, past_cons_of_break hbreak]

end Gap

end Flowgraph.Yaml
