import Flowgraph.Proofs.Yaml.Cursor
import Flowgraph.Yaml.Printer
import Flowgraph.Yaml.Token.Scan

/-!
# From token to token

Between two tokens of printed text nothing is going on but indentation: no flow collection is open
and no key is expected. `Layout.here` is such a state, in front of a token. `Leads` says that the
scanner gets from one state to another, with no more tokens than characters, so that it never runs
out of fuel; the lemmas take it past one mark or scalar and the space or line break after it.
-/

set_option autoImplicit false

namespace Flowgraph.Yaml

open Cursor
open Printer (spaces)

/-- Whether a text is empty or begins with a token, and not with what may stand between tokens. -/
def Visible (text : List Char) : Prop :=
  ∀ a ∈ text.head?, isSpace a = false ∧ a ≠ '#' ∧ a ≠ byteOrderMark

theorem visible_cons {a : Char} {rest : List Char}
    (h : isSpace a = false ∧ a ≠ '#' ∧ a ≠ byteOrderMark) : Visible (a :: rest) := by
  rintro b ⟨⟩
  exact h

namespace Layout

variable {l m : Layout} {c : Cursor} {found : List Token} {blocks : List Nat} {allowed : Bool}
  {n : Nat} {next : List Char}

/-! ### Getting from one token to another -/

/-- Goes on in front of a token or at the end of the text. -/
def resume (fuel : Nat) (l : Layout) : Option (List Token) :=
  if l.cursor.rest.isEmpty then l.finish? else l.token?.bind (run? fuel)

theorem run?_succ (fuel : Nat) : run? (fuel + 1) l = l.step?.bind (resume fuel) := by
  rw [run?]
  rfl

/-- Whether the scanner gets from one state to another, with no more tokens than characters. -/
def Leads (l m : Layout) : Prop :=
  ∃ count, count + m.cursor.rest.length ≤ l.cursor.rest.length ∧
    ∀ fuel, resume (fuel + count) l = resume fuel m

theorem Leads.trans {l₁ l₂ l₃ : Layout} (h : Leads l₁ l₂) (h' : Leads l₂ l₃) : Leads l₁ l₃ := by
  obtain ⟨count, hlength, hresume⟩ := h
  obtain ⟨count', hlength', hresume'⟩ := h'
  refine ⟨count' + count, by omega, fun fuel => ?_⟩
  rw [← Nat.add_assoc, hresume, hresume']

/-- One token. -/
theorem Leads.token {l' : Layout} (htoken : l.token? = some m) (hstep : m.step? = some l')
    (hlength : l'.cursor.rest.length < l.cursor.rest.length) : Leads l l' := by
  have hrest : l.cursor.rest.isEmpty = false := by
    rw [List.isEmpty_eq_false_iff_exists_mem]
    exact List.exists_mem_of_length_pos (Nat.zero_lt_of_lt hlength)
  refine ⟨1, by omega, fun fuel => ?_⟩
  rw [resume, hrest, if_neg Bool.false_ne_true, htoken, Option.bind_some, run?_succ, hstep]
  rfl

/-- The end of the text is reached from its start. -/
theorem run?_of_leads {l' : Layout} (hstep : l.step? = some l') (h : Leads l' m)
    (hrest : m.cursor.rest = []) (hlength : l'.cursor.rest.length ≤ l.cursor.rest.length) :
    run? (l.cursor.rest.length + 1) l = m.finish? := by
  obtain ⟨count, hcount, hresume⟩ := h
  obtain ⟨fuel, hfuel⟩ : ∃ fuel, l.cursor.rest.length = fuel + count :=
    ⟨l.cursor.rest.length - count, by omega⟩
  rw [run?_succ, hstep, Option.bind_some, hfuel, hresume, resume, hrest]
  rfl

/-! ### States in front of a token -/

/-- A state outside flow collections where no key is expected. -/
def here (c : Cursor) (found : List Token) (blocks : List Nat) (allowed : Bool) : Layout where
  cursor := c
  found := found
  blocks := blocks
  keyAllowed := allowed

/-- Closes the blocks that the column of the cursor is left of. -/
def reached (l : Layout) : Layout := l.closeBlocks (l.cursor.column < ·)

@[simp] theorem cursor_here : (here c found blocks allowed).cursor = c := rfl

theorem closeBlocks_here (p : Nat → Bool) : (here c found blocks allowed).closeBlocks p =
    here c (List.replicate (blocks.takeWhile p).length .blockEnd ++ found)
      (blocks.drop (blocks.takeWhile p).length) allowed := rfl

theorem cursor_reached_here : (here c found blocks allowed).reached.cursor = c := rfl

/-- A block that the cursor is not left of stays open, and so do those around it. -/
theorem reached_of_le (h : ∀ b ∈ l.blocks.head?, b ≤ l.cursor.column) : l.reached = l := by
  have hnone : l.blocks.takeWhile (l.cursor.column < ·) = [] := by
    cases hblocks : l.blocks with
    | nil => rfl
    | cons b blocks =>
      rw [hblocks] at h
      exact List.takeWhile_cons_of_neg (by simpa using h b rfl)
  unfold reached closeBlocks
  rw [hnone]
  split <;> rfl

theorem reached_cons (found : List Token) (allowed : Bool) {b : Nat} (h : c.column < b) :
    (here c found (b :: blocks) allowed).reached =
      (here c (.blockEnd :: found) blocks allowed).reached := by
  have hsome : (b :: blocks).takeWhile (c.column < ·) = b :: blocks.takeWhile (c.column < ·) :=
    List.takeWhile_cons_of_pos (by simpa using h)
  rw [reached, reached, closeBlocks_here, closeBlocks_here, cursor_here, cursor_here, hsome,
    List.length_cons, List.replicate_succ', List.append_assoc]
  rfl

/-- The end of the text closes all blocks. -/
theorem finish?_here : (here c found blocks allowed).finish? =
    some ((List.replicate blocks.length Token.blockEnd ++ found).reverse) := by
  have hall : blocks.takeWhile (fun _ => true) = blocks := by
    induction blocks with
    | nil => rfl
    | cons b blocks ih => rw [List.takeWhile_cons_of_pos rfl, ih]
  rw [finish?, closeBlocks_here, hall]
  rfl

/-! ### Spaces and line breaks -/

theorem drop_spaces {p : Char → Bool} {k : Nat} (hp : p ' ' = true)
    (hnext : next.head?.any p = false) (hc : c.rest = spaces k ++ next) : c.drop p = c.skip k := by
  have htaken : c.rest.takeWhile p = spaces k := by
    have hspaces : ∀ a ∈ spaces k, p a = true := fun a ha => by
      rwa [List.eq_of_mem_replicate ha]
    rw [hc, List.takeWhile_append_of_pos hspaces]
    cases next with
    | nil => exact List.append_nil _
    | cons a next => rw [List.takeWhile_cons_of_neg (by simpa using hnext), List.append_nil]
  rw [drop, span, htaken, spaces, List.length_replicate]

/-- What is passed over within a line. -/
def isFiller (l : Layout) (a : Char) : Bool :=
  a == ' ' || (a == '\t' && (l.inFlow || !l.keyAllowed))

theorem isFiller_eq_false (l : Layout) {a : Char} (h : isSpace a = false) :
    l.isFiller a = false := by
  have hblank := isBlank_eq_false h
  rw [isBlank, Bool.or_eq_false_iff] at hblank
  rw [isFiller, hblank.1, hblank.2]
  rfl

theorem skipSpace_succ {fuel : Nat} (hmark : l.cursor.rest.head? ≠ some byteOrderMark) :
    skipSpace (fuel + 1) l =
      let c := (l.cursor.drop l.isFiller).comment
      if c.rest.head?.any isBreak then
        skipSpace fuel { l with cursor := c.newline.2, keyAllowed := l.keyAllowed || !l.inFlow }
      else { l with cursor := c } := by
  have hsame : (if l.cursor.column = 0 ∧ l.cursor.rest.head? = some byteOrderMark
      then l.cursor.advance else l.cursor) = l.cursor := if_neg fun h => hmark h.2
  rw [skipSpace, hsame]
  rfl

theorem comment_of_visible (hc : c.rest = next) (hnext : Visible next) : c.comment = c := by
  refine if_neg fun h => ?_
  rw [hc] at h
  exact (hnext '#' h).2.1 rfl

theorem any_of_visible {p : Char → Bool} (hp : ∀ a, isSpace a = false → p a = false)
    (hnext : Visible next) : next.head?.any p = false := by
  cases next with
  | nil => rfl
  | cons a next => exact hp a (hnext a rfl).1

/-- Spaces in front of a token are passed over. -/
theorem skipSpace_spaces {fuel k : Nat} (hc : l.cursor.rest = spaces k ++ next)
    (hnext : Visible next) :
    skipSpace (fuel + 1) l = { l with cursor := l.cursor.skip k } := by
  have hmark : l.cursor.rest.head? ≠ some byteOrderMark := by
    rw [hc]
    cases k with
    | zero => exact fun h => (hnext _ h).2.2 rfl
    | succ k =>
      intro h
      cases h
  have hdrop : l.cursor.drop l.isFiller = l.cursor.skip k :=
    drop_spaces rfl (any_of_visible (fun _ => l.isFiller_eq_false) hnext) hc
  have hrest : (l.cursor.skip k).rest = next := by
    rw [rest_skip, hc, spaces, List.drop_left' List.length_replicate]
  rw [skipSpace_succ hmark, hdrop]
  dsimp only
  rw [comment_of_visible hrest hnext, hrest,
    any_of_visible (fun _ => isBreak_eq_false) hnext, if_neg Bool.false_ne_true]

/-- So are a line break and the indentation after it. -/
theorem skipSpace_line {fuel k : Nat} (hc : l.cursor.rest = '\n' :: (spaces k ++ next))
    (hnext : Visible next) (houter : l.outer = []) :
    skipSpace (fuel + 2) l =
      { l with cursor := l.cursor.past ('\n' :: spaces k), keyAllowed := true } := by
  have hmark : l.cursor.rest.head? ≠ some byteOrderMark := by
    rw [hc]
    intro h
    cases h
  have hnone : ('\n' :: (spaces k ++ next)).head?.any l.isFiller = false := rfl
  have hdrop : l.cursor.drop l.isFiller = l.cursor := drop_spaces (k := 0) rfl hnone hc
  have hcomment : l.cursor.comment = l.cursor := if_neg fun h => by
    rw [hc] at h
    cases h
  have hbreak : l.cursor.rest.head?.any isBreak = true := by
    rw [hc]
    rfl
  have hflow : (l.keyAllowed || !l.inFlow) = true := by
    rw [inFlow, houter]
    exact Bool.or_true _
  have hnewline : isBreak '\n' = true := rfl
  have hnext' : l.cursor.newline.2.rest = spaces k ++ next := by
    rw [newline_of_isPrintable hc rfl]
  rw [skipSpace_succ hmark, hdrop]
  dsimp only
  rw [hcomment, hbreak, if_pos rfl, hflow, skipSpace_spaces hnext' hnext,
    past_cons_of_break hnewline, spaces, past_replicate_space]

/-! ### Steps -/

/-- A candidate that only counts for the line it stands on. -/
def Fleeting (line : Nat) (candidate : Option Candidate) : Prop :=
  ∀ k ∈ candidate, k.required = false ∧ k.line < line

theorem fleeting_none {line : Nat} : Fleeting line none := fun _ h => (Option.not_mem_none _ h).elim

theorem dropStale?_of_fleeting {candidate : Option Candidate} (h : Fleeting c.line candidate) :
    ({ cursor := c, found, blocks, keyAllowed := allowed, candidate } : Layout).dropStale? =
      some (here c found blocks allowed) := by
  unfold dropStale?
  cases candidate with
  | none => rfl
  | some k =>
    obtain ⟨hrequired, hline⟩ := h k rfl
    have hstale : (k.line < c.line || k.index + 1024 < c.index : Bool) = true := by
      simp [show k.line < c.line from hline]
    simp only [current?, hstale, if_true, dropped?, hrequired, bind]
    rfl

/-- A step to a token on the same line, -/
theorem step?_spaces {k : Nat} (houter : l.outer = []) (h : Fleeting l.cursor.line l.candidate)
    (hc : l.cursor.rest = spaces k ++ next) (hnext : Visible next) :
    l.step? = some (here (l.cursor.skip k) l.found l.blocks l.keyAllowed).reached := by
  have hskip : skipSpace (l.cursor.rest.length + 1) l = _ := skipSpace_spaces hc hnext
  obtain ⟨cursor, found, blocks, allowed, candidate, outer⟩ := l
  obtain rfl : outer = [] := houter
  have hdrop : dropStale? ⟨cursor.skip k, found, blocks, allowed, candidate, []⟩ = _ :=
    dropStale?_of_fleeting h
  rw [step?, hskip, hdrop]
  rfl

/-- and to one on the next line. -/
theorem step?_line {k : Nat} (houter : l.outer = [])
    (h : Fleeting (l.cursor.line + 1) l.candidate)
    (hc : l.cursor.rest = '\n' :: (spaces k ++ next)) (hnext : Visible next) :
    l.step? = some (here (l.cursor.past ('\n' :: spaces k)) l.found l.blocks true).reached := by
  have hskip : skipSpace ((spaces k ++ next).length + 2) l = _ := skipSpace_line hc hnext houter
  have hlength : l.cursor.rest.length + 1 = (spaces k ++ next).length + 2 := by
    rw [hc, List.length_cons]
  have hline : (l.cursor.past ('\n' :: spaces k)).line = l.cursor.line + 1 := by
    rw [spaces, past_indent hc rfl rfl]
  rw [← hline] at h
  obtain ⟨cursor, found, blocks, allowed, candidate, outer⟩ := l
  obtain rfl : outer = [] := houter
  have hdrop : dropStale? ⟨cursor.past ('\n' :: spaces k), found, blocks, true, candidate, []⟩ =
    _ := dropStale?_of_fleeting h
  rw [step?, hlength, hskip, hdrop]
  rfl

theorem rest_past_line (hc : c.rest = '\n' :: (spaces n ++ next)) :
    (c.past ('\n' :: spaces n)).rest = next :=
  rest_past (printable_cons.2 ⟨rfl, printable_replicate n rfl⟩) hc

theorem column_past_line (hc : c.rest = '\n' :: (spaces n ++ next)) :
    (c.past ('\n' :: spaces n)).column = n := by
  rw [spaces, past_indent hc rfl rfl]

/-- A step within the innermost block. -/
theorem step?_here_spaces (found : List Token) (allowed : Bool) {k : Nat}
    (hc : c.rest = spaces k ++ next) (hnext : Visible next)
    (hblocks : ∀ b ∈ blocks.head?, b ≤ c.column + k) :
    (here c found blocks allowed).step? = some (here (c.skip k) found blocks allowed) := by
  have hfleeting : Fleeting c.line (here c found blocks allowed).candidate := fleeting_none
  rw [step?_spaces (l := here c found blocks allowed) rfl hfleeting hc hnext]
  exact congrArg some (reached_of_le (l := here (c.skip k) found blocks allowed) hblocks)

theorem step?_here_line (found : List Token) (allowed : Bool) {k : Nat}
    (hc : c.rest = '\n' :: (spaces k ++ next)) (hnext : Visible next)
    (hblocks : ∀ b ∈ blocks.head?, b ≤ k) : (here c found blocks allowed).step? =
      some (here (c.past ('\n' :: spaces k)) found blocks true) := by
  have hfleeting : Fleeting (c.line + 1) (here c found blocks allowed).candidate := fleeting_none
  rw [step?_line (l := here c found blocks allowed) rfl hfleeting hc hnext]
  rw [← column_past_line hc] at hblocks
  exact congrArg some (reached_of_le (l := here _ found blocks true) hblocks)

/-- A step in front of a token, where nothing is given up. -/
theorem step?_self (hnext : Visible l.cursor.rest)
    (hcandidate : current? l.cursor l.candidate = some l.candidate)
    (houter : l.outer.mapM (current? l.cursor) = some l.outer) (hreached : l.reached = l) :
    l.step? = some l := by
  have hskip : skipSpace (l.cursor.rest.length + 1) l = l := skipSpace_spaces (k := 0) rfl hnext
  unfold step? dropStale?
  simp only [hskip, hcandidate, houter, bind, Option.bind_some, pure]
  exact congrArg some hreached

/-! ### Getting to the next line -/

/-- Whether the scanner gets to a column of some line, in front of the rest of the text. -/
def Arrives (l : Layout) (found : List Token) (blocks : List Nat) (n : Nat) (next : List Char) :
    Prop :=
  ∃ c, c.rest = next ∧ c.column = n ∧ Leads l (here c found blocks true).reached

theorem Leads.arrives {m : Layout} (h : Leads l m) (h' : Arrives m found blocks n next) :
    Arrives l found blocks n next := by
  obtain ⟨c, hrest, hcolumn, hleads⟩ := h'
  exact ⟨c, hrest, hcolumn, h.trans hleads⟩

/-- A block that the next line is left of ends there. -/
theorem Arrives.close {b : Nat} (h : Arrives l found (b :: blocks) n next) (hn : n < b) :
    Arrives l (.blockEnd :: found) blocks n next := by
  obtain ⟨c, hrest, rfl, hleads⟩ := h
  exact ⟨c, hrest, rfl, reached_cons found true hn ▸ hleads⟩

/-- Other blocks go on. -/
theorem Arrives.here (h : Arrives l found blocks n next) (hn : ∀ b ∈ blocks.head?, b ≤ n) :
    ∃ c, c.rest = next ∧ c.column = n ∧ Leads l (here c found blocks true) := by
  obtain ⟨c, hrest, rfl, hleads⟩ := h
  exact ⟨c, hrest, rfl, reached_of_le (l := here c found blocks true) hn ▸ hleads⟩

/-- A token that ends in front of the next one, on a later line. -/
theorem arrives_of_token {candidate : Option Candidate}
    (htoken : l.token? = some { cursor := c, found, blocks, candidate })
    (hcandidate : Fleeting c.line candidate) (hrest : c.rest = next) (hcolumn : c.column = n)
    (hnext : Visible next) (hlength : next.length < l.cursor.rest.length) :
    Arrives l found blocks n next := by
  have hstep := step?_spaces (l := { cursor := c, found, blocks, candidate }) (k := 0) rfl
    hcandidate hrest hnext
  refine ⟨c, hrest, hcolumn, Leads.token htoken hstep ?_⟩
  rw [cursor_reached_here, hrest]
  exact hlength

/-! ### Marks -/

/-- Whether a block collection at a column is opened, or open already. -/
def Opened (token : Token) (column : Nat) (found : List Token) (blocks : List Nat)
    (found' : List Token) (blocks' : List Nat) : Prop :=
  (∀ b ∈ blocks.head?, b < column) ∧ found' = token :: found ∧ blocks' = column :: blocks ∨
    blocks.head? = some column ∧ found = found' ∧ blocks = blocks'

variable {token : Token} {column : Nat} {found' : List Token} {blocks' : List Nat}
  {rest : List Char}

theorem Opened.head (h : Opened token column found blocks found' blocks') :
    blocks'.head? = some column := by
  rcases h with ⟨-, -, rfl⟩ | ⟨hhead, -, rfl⟩
  · rfl
  · exact hhead

theorem Opened.le (h : Opened token column found blocks found' blocks') :
    ∀ b ∈ blocks.head?, b ≤ column := fun b hmem => by
  rcases h with ⟨hless, -, -⟩ | ⟨hhead, -, -⟩
  · exact Nat.le_of_lt (hless b hmem)
  · exact Nat.le_of_eq (Option.some.inj (hmem.symm.trans hhead))

theorem Opened.le_head (h : Opened token column found blocks found' blocks') :
    ∀ b ∈ blocks'.head?, b ≤ column := fun _ hmem =>
  Nat.le_of_eq (Option.some.inj (hmem.symm.trans h.head))

/-- A collection that is open already. -/
theorem Opened.again (h : blocks.head? = some column) :
    Opened token column found blocks found blocks := Or.inr ⟨h, rfl, rfl⟩

theorem Opened.opens (h : Opened token column found blocks found' blocks') (l : Layout)
    (houter : l.outer = []) (hblocks : l.blocks = blocks) :
    l.opens column = true ∧ found' = token :: found ∧ blocks' = column :: blocks ∨
      l.opens column = false ∧ found = found' ∧ blocks = blocks' := by
  have hopens : l.opens column = blocks.head?.all (· < column) := by
    rw [Layout.opens, inFlow, houter, hblocks]
    rfl
  rw [hopens]
  rcases h with ⟨hless, hfound, hblocks'⟩ | ⟨hhead, hfound, hblocks'⟩
  · refine Or.inl ⟨?_, hfound, hblocks'⟩
    cases hhead : blocks.head? with
    | none => rfl
    | some b => exact decide_eq_true (hless b hhead)
  · refine Or.inr ⟨?_, hfound, hblocks'⟩
    rw [hhead]
    exact decide_eq_false (Nat.lt_irrefl _)

theorem Opened.openBlock (h : Opened token c.column found blocks found' blocks') :
    (here c found blocks allowed).openBlock token = here c found' blocks' allowed := by
  unfold Layout.openBlock
  rcases h.opens (here c found blocks allowed) rfl rfl with ⟨hopens, rfl, rfl⟩ | ⟨hopens, rfl, rfl⟩
  · rw [cursor_here, hopens, if_pos rfl]
    rfl
  · rw [cursor_here, hopens, if_neg Bool.false_ne_true]

/-- A text that begins neither with a directive nor with the bounds of a document. -/
structure Inside (text : List Char) : Prop where
  directive : text.head? ≠ some '%'
  start : text.take 3 ≠ ['-', '-', '-']
  close : text.take 3 ≠ ['.', '.', '.']

theorem Inside.not_directive (h : Inside c.rest) :
    ¬(c.column = 0 ∧ c.rest.head? = some '%') := fun hboth => h.directive hboth.2

theorem Inside.atBound (h : Inside c.rest) :
    c.atBound "---" = false ∧ c.atBound "..." = false := by
  have hstart : (c.rest.take 3 == "---".toList) = false := beq_eq_false_iff_ne.2 h.start
  have hclose : (c.rest.take 3 == "...".toList) = false := beq_eq_false_iff_ne.2 h.close
  rw [Cursor.atBound, Cursor.atBound, hstart, hclose, Bool.and_false, Bool.false_and]
  exact ⟨rfl, rfl⟩

theorem Inside.atDocument (h : Inside c.rest) : c.atDocument = false := by
  rw [Cursor.atDocument, h.atBound.1, h.atBound.2]
  rfl

theorem Inside.of_cons {a b : Char} (ha : a ≠ '%') (hminus : a ≠ '-' ∨ b ≠ '-')
    (hdot : a ≠ '.' ∨ b ≠ '.') : Inside (a :: b :: rest) where
  directive heq := ha (Option.some.inj heq)
  start heq := by
    injection heq with hfirst heq
    injection heq with hsecond
    exact hminus.elim (· hfirst) (· hsecond)
  close heq := by
    injection heq with hfirst heq
    injection heq with hsecond
    exact hdot.elim (· hfirst) (· hsecond)

/-- Whether a character begins a token by itself, whatever comes after it. -/
def marks (a : Char) : Bool := "[]\x7b\x7d,*&!'\"".toList.contains a

/-- A token that takes a second look. -/
theorem token?_of_not_marks {a : Char} (hc : l.cursor.rest = a :: rest)
    (hinside : Inside l.cursor.rest) (ha : marks a = false) :
    l.token? =
      if a = '-' ∧ endsWord rest then l.item?
      else if a = '?' ∧ (l.inFlow ∨ endsWord rest) then l.key?
      else if a = ':' ∧ (l.inFlow ∨ endsWord rest) then l.value?
      else if (a = '|' ∨ a = '>') ∧ !l.inFlow then l.block? (a == '|')
      else if beginsPlain l.inFlow (a :: rest) then l.plain?
      else none := by
  rw [token?]
  dsimp only
  rw [if_neg hinside.not_directive, hinside.atBound.1, hinside.atBound.2,
    if_neg Bool.false_ne_true, if_neg Bool.false_ne_true, hc]
  split
  case h_11 heq =>
    obtain ⟨rfl, rfl⟩ := List.cons.inj heq
    rfl
  case h_12 heq => cases heq
  all_goals
    rename_i heq
    obtain ⟨rfl, rfl⟩ := List.cons.inj heq
    cases ha

theorem not_and_of_ne {a b : Char} {p : Prop} (h : a ≠ b) : ¬(a = b ∧ p) := fun hboth => h hboth.1

theorem token?_colon {b : Char} (hc : l.cursor.rest = ':' :: b :: rest) (hb : isSpace b = true) :
    l.token? = l.value? := by
  have hinside : Inside l.cursor.rest := by
    rw [hc]
    exact Inside.of_cons (by decide) (Or.inl (by decide)) (Or.inl (by decide))
  rw [token?_of_not_marks hc hinside rfl, if_neg (not_and_of_ne (by decide)),
    if_neg (not_and_of_ne (by decide)), if_pos ⟨rfl, Or.inr hb⟩]

/-- The hyphen in front of an item, -/
theorem token?_item (h : Opened .blockSequence c.column found blocks found' blocks')
    (hc : c.rest = '-' :: ' ' :: rest) :
    (here c found blocks true).token? = some (here (c.skip 1) (.item :: found') blocks' true) := by
  have hinside : Inside c.rest := by
    rw [hc]
    exact Inside.of_cons (by decide) (Or.inr (by decide)) (Or.inr (by decide))
  have hallowed : (here c found blocks true).keyAllowed = true := rfl
  rw [token?_of_not_marks hc hinside rfl, if_pos ⟨rfl, rfl⟩, item?, if_pos (Or.inr hallowed),
    h.openBlock, ← advance_eq_skip]
  rfl

/-- the mark in front of a key, -/
theorem token?_key (h : Opened .blockMapping c.column found blocks found' blocks')
    (hc : c.rest = '?' :: ' ' :: rest) :
    (here c found blocks true).token? = some (here (c.skip 1) (.key :: found') blocks' true) := by
  have hinside : Inside c.rest := by
    rw [hc]
    exact Inside.of_cons (by decide) (Or.inr (by decide)) (Or.inr (by decide))
  have hallowed : (here c found blocks true).keyAllowed = true := rfl
  rw [token?_of_not_marks hc hinside rfl, if_neg (not_and_of_ne (by decide)),
    if_pos ⟨rfl, Or.inr rfl⟩, key?, if_pos (Or.inr hallowed), h.openBlock, ← advance_eq_skip]
  rfl

/-- and the colon after a key that has a mark. -/
theorem token?_value (h : Opened .blockMapping c.column found blocks found' blocks')
    (hc : c.rest = ':' :: ' ' :: rest) :
    (here c found blocks true).token? = some (here (c.skip 1) (.value :: found') blocks' true) := by
  have hallowed : (here c found blocks true).keyAllowed = true := rfl
  have hcandidate : (here c found blocks true).candidate = none := rfl
  rw [token?_colon hc rfl, value?, hcandidate]
  dsimp only
  rw [if_pos (Or.inr hallowed), h.openBlock, ← advance_eq_skip]
  rfl

/-- A mark and the space after it. -/
theorem leads_mark (before : Layout) {a : Char} (hc : before.cursor.rest = a :: ' ' :: next)
    (hnext : Visible next)
    (htoken : before.token? = some (here (before.cursor.skip 1) found blocks true))
    (hblocks : ∀ b ∈ blocks.head?, b ≤ before.cursor.column) :
    Leads before (here (before.cursor.skip 2) found blocks true) := by
  have hspace : (before.cursor.skip 1).rest = spaces 1 ++ next := by
    rw [rest_skip, hc]
    rfl
  have hstep := step?_here_spaces found true hspace hnext fun b hb =>
    Nat.le_trans (hblocks b hb) (Nat.le_add_right _ 2)
  rw [skip_skip] at hstep
  refine Leads.token htoken hstep ?_
  rw [cursor_here, rest_skip, hc]
  simp only [List.drop_succ_cons, List.drop_zero, List.length_cons]
  omega

/-! ### Words -/

/-- The candidate that a word in front of which a key is allowed leaves behind. -/
def candidateAt (c : Cursor) (found : List Token) (blocks : List Nat) (allowed : Bool) :
    Option Candidate :=
  if allowed then some ⟨found.length, blocks.head? == some c.column, c.index, c.line, c.column⟩
  else none

theorem saveCandidate?_here : (here c found blocks allowed).saveCandidate? =
    some { here c found blocks allowed with candidate := candidateAt c found blocks allowed } := by
  cases allowed <;> rfl

theorem word?_here (token : Token) (c' : Cursor) : (here c found blocks allowed).word? token c' =
    some { cursor := c', found := token :: found, blocks, keyAllowed := false,
           candidate := candidateAt c found blocks allowed } := by
  rw [word?, saveCandidate?_here]
  rfl

/-- A word that is further right than its block is not the key of it. -/
theorem fleeting_candidateAt (found : List Token) (allowed : Bool) {parent line : Nat}
    (hparent : blocks.head? = some parent)
    (hcolumn : parent < c.column) (hline : c.line < line) :
    Fleeting line (candidateAt c found blocks allowed) := by
  intro k hk
  unfold candidateAt at hk
  split at hk
  · obtain rfl := Option.some.inj hk
    refine ⟨?_, hline⟩
    rw [hparent]
    exact beq_eq_false_iff_ne.2 fun heq => by
      rw [Option.some.inj heq] at hcolumn
      exact Nat.lt_irrefl _ hcolumn
  · cases hk

/-- A candidate stays on its line for so many characters. -/
theorem current?_candidateAt (found : List Token) (blocks : List Nat) (allowed : Bool)
    {c' : Cursor} (hline : c'.line = c.line) (hindex : c'.index ≤ c.index + 1024) :
    current? c' (candidateAt c found blocks allowed) =
      some (candidateAt c found blocks allowed) := by
  have hstale : (c.line < c'.line || c.index + 1024 < c'.index : Bool) = false := by
    simp [hline, hindex]
  unfold candidateAt
  split
  · rw [current?]
    dsimp only
    rw [hstale, if_neg Bool.false_ne_true]
  · rfl

/-- A word up to the end of its line. -/
theorem arrives_word {parent : Nat} {c' : Cursor}
    (htoken : (here c found blocks allowed).token? =
      (here c found blocks allowed).word? token c')
    (hparent : blocks.head? = some parent) (hcolumn : parent < c.column) (hline : c.line ≤ c'.line)
    (hc : c'.rest = '\n' :: (spaces n ++ next)) (hlength : c'.rest.length ≤ c.rest.length)
    (hnext : Visible next) :
    Arrives (here c found blocks allowed) (token :: found) blocks n next := by
  rw [word?_here] at htoken
  have hfleeting := fleeting_candidateAt found allowed hparent hcolumn
    (Nat.lt_succ_of_le hline)
  refine ⟨_, rest_past_line hc, column_past_line hc,
    Leads.token htoken (step?_line rfl hfleeting hc hnext) ?_⟩
  rw [cursor_reached_here, rest_past_line hc]
  rw [hc, List.length_cons, List.length_append] at hlength
  exact Nat.lt_of_lt_of_le (by omega) hlength

/-- The state behind a word that may be a key. -/
def behind (c c' : Cursor) (token : Token) (found : List Token) (blocks : List Nat) : Layout where
  cursor := c'
  found := token :: found
  blocks := blocks
  keyAllowed := false
  candidate := candidateAt c found blocks true

/-- Nothing is given up between a key and its colon. -/
theorem step?_behind {c' : Cursor} (hhead : ∀ b ∈ blocks.head?, b ≤ c'.column)
    (hline : c'.line = c.line) (hindex : c'.index ≤ c.index + 1024) (hnext : Visible c'.rest) :
    (behind c c' token found blocks).step? = some (behind c c' token found blocks) :=
  step?_self hnext (current?_candidateAt found blocks true hline hindex) rfl (reached_of_le hhead)

theorem insert_behind {c' : Cursor} (tokens : List Token) :
    (behind c c' token found blocks).insert found.length tokens =
      { behind c c' token found blocks with found := token :: (tokens ++ found) } := by
  have hafter : (token :: found).length - found.length = 1 := by
    rw [List.length_cons]
    omega
  unfold insert behind
  dsimp only
  rw [hafter]
  rfl

/-- The colon puts the mark of the key in where the key begins. -/
theorem token?_behind {c' : Cursor} {b : Char}
    (h : Opened .blockMapping c.column found blocks found' blocks')
    (hc : c'.rest = ':' :: b :: rest) (hb : isSpace b = true) :
    (behind c c' token found blocks).token? =
      some (here (c'.skip 1) (.value :: token :: .key :: found') blocks' false) := by
  have hcandidate : (behind c c' token found blocks).candidate =
      some ⟨found.length, blocks.head? == some c.column, c.index, c.line, c.column⟩ := rfl
  have hcursor : (behind c c' token found blocks).cursor.rest = ':' :: b :: rest := hc
  rw [token?_colon hcursor hb, value?, hcandidate]
  dsimp only
  rcases h.opens (behind c c' token found blocks) rfl rfl with
    ⟨hopens, rfl, rfl⟩ | ⟨hopens, rfl, rfl⟩ <;>
    rw [hopens, insert_behind, ← advance_eq_skip] <;> rfl

/-- A key and its colon. -/
theorem leads_key {c' : Cursor} {b : Char}
    (htoken : (here c found blocks true).token? = (here c found blocks true).word? token c')
    (h : Opened .blockMapping c.column found blocks found' blocks')
    (hc : c'.rest = ':' :: b :: rest) (hb : isSpace b = true) (hline : c'.line = c.line)
    (hindex : c'.index ≤ c.index + 1024) (hcolumn : c.column ≤ c'.column)
    (hlength : c'.rest.length < c.rest.length)
    (hstep : (here (c'.skip 1) (.value :: token :: .key :: found') blocks' false).step? = some m)
    (hm : m.cursor.rest.length ≤ (b :: rest).length) : Leads (here c found blocks true) m := by
  have hhead : ∀ b ∈ blocks.head?, b ≤ c'.column := fun b hmem =>
    Nat.le_trans (h.le b hmem) hcolumn
  have hnext : Visible c'.rest := by
    rw [hc]
    exact visible_cons (by decide)
  have hword : (here c found blocks true).token? = some (behind c c' token found blocks) := by
    rw [htoken, word?_here]
    rfl
  refine (Leads.token hword (step?_behind hhead hline hindex hnext) hlength).trans ?_
  refine Leads.token (token?_behind h hc hb) hstep ?_
  rw [show (behind c c' token found blocks).cursor.rest = ':' :: b :: rest from hc]
  exact Nat.lt_succ_of_le hm

/-! ### Empty collections -/

/-- The state between the marks of an empty collection. -/
def within (c : Cursor) (token : Token) (found : List Token) (blocks : List Nat) (allowed : Bool) :
    Layout where
  cursor := c.skip 1
  found := token :: found
  blocks := blocks
  outer := [candidateAt c found blocks allowed]

theorem step?_within (hnext : Visible (c.skip 1).rest) :
    (within c token found blocks allowed).step? = some (within c token found blocks allowed) := by
  have hindex : (c.skip 1).index ≤ c.index + 1024 := Nat.add_le_add_left (by decide) _
  have hcurrent : current? (c.skip 1) (candidateAt c found blocks allowed) = _ :=
    current?_candidateAt found blocks allowed rfl hindex
  refine step?_self hnext rfl ?_ rfl
  show [candidateAt c found blocks allowed].mapM (current? (c.skip 1)) = _
  rw [List.mapM_cons, List.mapM_nil, hcurrent]
  rfl

/-- An empty collection up to the end of its line. -/
theorem arrives_flow {parent : Nat} {token' : Token} {a b : Char}
    (hopen : (here c found blocks allowed).token? = (here c found blocks allowed).openFlow? token)
    (hclose : (within c token found blocks allowed).token? =
      (within c token found blocks allowed).closeFlow? token')
    (hparent : blocks.head? = some parent) (hcolumn : parent < c.column)
    (hc : c.rest = a :: b :: '\n' :: (spaces n ++ next))
    (hb : isSpace b = false ∧ b ≠ '#' ∧ b ≠ byteOrderMark) (hnext : Visible next) :
    Arrives (here c found blocks allowed) (token' :: token :: found) blocks n next := by
  have hopened : (here c found blocks allowed).token? =
      some (within c token found blocks allowed) := by
    rw [hopen, openFlow?, saveCandidate?_here, within, ← advance_eq_skip]
    rfl
  have hwithin : (c.skip 1).rest = b :: '\n' :: (spaces n ++ next) := by
    rw [rest_skip, hc]
    rfl
  have hafter : (c.skip 2).rest = '\n' :: (spaces n ++ next) := by
    rw [rest_skip, hc]
    rfl
  have hvisible : Visible (c.skip 1).rest := by
    rw [hwithin]
    exact visible_cons hb
  have hclosed : (within c token found blocks allowed).token? =
      some { cursor := c.skip 2, found := token' :: token :: found, blocks, keyAllowed := false,
             candidate := candidateAt c found blocks allowed } := by
    rw [hclose, ← skip_skip c 1 1, ← advance_eq_skip (c.skip 1)]
    rfl
  have hfleeting := fleeting_candidateAt found allowed hparent hcolumn
    (Nat.lt_succ_self c.line)
  refine ⟨_, rest_past_line hafter, column_past_line hafter,
    (Leads.token hopened (step?_within hvisible) ?_).trans
      (Leads.token hclosed (step?_line rfl hfleeting hafter hnext) ?_)⟩
  · show (c.skip 1).rest.length < c.rest.length
    rw [hwithin, hc]
    exact Nat.lt_succ_self _
  · rw [cursor_reached_here, rest_past_line hafter]
    show _ < (c.skip 1).rest.length
    rw [hwithin]
    simp only [List.length_cons, List.length_append]
    omega

end Layout

end Flowgraph.Yaml
