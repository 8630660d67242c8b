import Flowgraph.Proofs.Yaml.Leaf

/-!
# Printed trees as tokens

A collection is printed at a column, and its parts two columns further right or, for the items of
a sequence at a short key, at the same column. The scanner takes the collection to its tokens, one
part after another (`scans`), and a document to the tokens of its tree (`ofText?_write`).
-/

set_option autoImplicit false

namespace Flowgraph.Yaml

open Cursor

namespace Printer

variable {column : Nat} {name : String} {rest : List Char}

/-- A tree at a column. -/
def block (column : Nat) : Tree → List Char
  | .array (item :: rest) => '-' :: part column item ++ items column rest
  | .object ((name, item) :: rest) =>
    key column name ++ value column name item ++ entries column rest
  | tree => endLine (leaf column tree)

theorem block_object (name : String) (item : Tree) (rest : List (String × Tree)) :
    block column (.object ((name, item) :: rest)) =
      key column name ++ value column name item ++ entries column rest := rfl

theorem block_of_leaf {t : Tree} (h : t.hasParts = false) :
    block column t = endLine (leaf column t) := by
  match t with
  | .array [] | .object [] | .null | .bool _ | .number _ | .string _ | .infinite | .unkeyed
  | .unreadable | .broken => rfl
  | .array (_ :: _) | .object (_ :: _) => cases h

theorem part_eq (t : Tree) : part column t = ' ' :: block (column + 2) t := by
  match t with
  | .array (_ :: _) | .object ((_, _) :: _) => simp only [part, block, List.cons_append]
  | .array [] | .object [] | .null | .bool _ | .number _ | .string _ | .infinite | .unkeyed
  | .unreadable | .broken => simp only [part, block]

theorem block_array (item : Tree) (rest : List Tree) : block column (.array (item :: rest)) =
    '-' :: ' ' :: (block (column + 2) item ++ items column rest) := by
  rw [block, part_eq, List.cons_append, List.cons_append]

theorem items_cons (item : Tree) (rest : List Tree) :
    items column (item :: rest) = spaces column ++ block column (.array (item :: rest)) := by
  rw [items, block, List.append_assoc]

theorem entries_cons (m : String × Tree) (rest : List (String × Tree)) :
    entries column (m :: rest) = spaces column ++ block column (.object (m :: rest)) := by
  obtain ⟨name, item⟩ := m
  simp only [entries, block_object, List.append_assoc]

/-- The column of the value at a key that stands on lines of its own. -/
def valueColumn (column : Nat) : Tree → Nat
  | .array _ => column
  | _ => column + 2

theorem le_valueColumn (t : Tree) : column ≤ valueColumn column t := by
  unfold valueColumn
  split
  · exact Nat.le_refl _
  · exact Nat.le_add_right _ _

theorem value_of_line {t : Tree} (hkey : Style.allowsKey name = true) (h : t.hasParts = true) :
    value column name t =
      '\n' :: (spaces (valueColumn column t) ++ block (valueColumn column t) t) := by
  match t with
  | .array (item :: rest) =>
    simp only [value, if_pos hkey, valueColumn, block, List.cons_append, List.append_assoc]
  | .object ((inner, item) :: rest) =>
    simp only [value, if_pos hkey, valueColumn, block_object, List.cons_append, List.append_assoc]
  | .array [] | .object [] | .null | .bool _ | .number _ | .string _ | .infinite | .unkeyed
  | .unreadable | .broken => cases h

theorem value_of_space {t : Tree} (h : Style.allowsKey name = true → t.hasParts = false) :
    value column name t = ' ' :: block (column + 2) t := by
  match t with
  | .array (item :: rest) =>
    have hkey : Style.allowsKey name ≠ true := fun hkey => Bool.noConfusion (h hkey)
    rw [value, if_neg hkey, part_eq]
  | .object ((inner, item) :: rest) =>
    have hkey : Style.allowsKey name ≠ true := fun hkey => Bool.noConfusion (h hkey)
    rw [value, if_neg hkey, part_eq]
  | .array [] | .object [] | .null | .bool _ | .number _ | .string _ | .infinite | .unkeyed
  | .unreadable | .broken => simp only [value, block]

/-! ### What begins a printed tree -/

theorem visible_of_plain {text : List Char} (h : Style.allowsPlain text = true) (hne : text ≠ []) :
    Visible (text ++ rest) := by
  obtain ⟨a, text, rfl⟩ := List.exists_cons_of_ne_nil hne
  obtain ⟨hspace, hcomment⟩ := (Plain.fit_of_allowsPlain h).head a rfl
  refine visible_cons ⟨hspace, hcomment, ?_⟩
  rintro rfl
  simp only [Style.allowsPlain, Style.needsEscape, Bool.and_eq_true, Bool.not_eq_true',
    Bool.or_eq_false_iff, List.any_cons] at h
  cases h.1.1.1.1.1.1

theorem visible_text (s : String) : Visible (text column s ++ rest) := by
  cases hstyle : Style.ofText s with
  | plain =>
    obtain ⟨hplain, hne⟩ := Style.allowsPlain_of_plain hstyle
    rw [text_of_plain hstyle]
    exact visible_of_plain hplain hne
  | single =>
    rw [text_of_single hstyle]
    exact visible_cons (by decide)
  | double =>
    rw [text_of_double hstyle]
    exact visible_cons (by decide)
  | literal =>
    rw [text_of_literal hstyle]
    exact visible_cons (by decide)

theorem visible_leaf {t : Tree} (h : t.hasParts = false) : Visible (leaf column t ++ rest) := by
  match t with
  | .string s => exact visible_text s
  | .number x =>
    obtain ⟨hplain, hne⟩ := Style.allowsPlain_number x
    exact visible_of_plain hplain hne
  | .bool true | .bool false | .array [] | .object [] | .null | .infinite | .unkeyed
  | .unreadable | .broken => exact visible_cons (by decide)
  | .array (_ :: _) | .object (_ :: _) => cases h

theorem visible_endLine {text : List Char} (h : ∀ rest, Visible (text ++ rest)) :
    Visible (endLine text ++ rest) := by
  unfold endLine
  split
  · exact h rest
  · rw [List.append_assoc]
    exact h _

theorem visible_key : Visible (key column name ++ rest) := by
  unfold key
  split
  · rw [List.append_assoc]
    exact visible_text name
  · exact visible_cons (by decide)

theorem visible_block (t : Tree) : Visible (block column t ++ rest) := by
  cases h : t.hasParts with
  | false =>
    rw [block_of_leaf h]
    exact visible_endLine fun _ => visible_leaf h
  | true =>
    match t with
    | .array (item :: items) => exact visible_cons (by decide)
    | .object ((name, item) :: members) =>
      rw [block_object, List.append_assoc, List.append_assoc]
      exact visible_key
    | .array [] | .object [] | .null | .bool _ | .number _ | .string _ | .infinite | .unkeyed
    | .unreadable | .broken => cases h

/-! ### Printed characters -/

theorem printable_digits (n : Nat) : Printable ((Nat.toDigits 16 n).map Char.toUpper) := by
  have hdigit : ∀ d < 16, Style.isPrintable (Nat.digitChar d).toUpper = true := by decide
  induction n using Nat.strongRecOn with
  | _ n ih =>
    rw [Nat.toDigits_eq_if (by decide)]
    split
    case isTrue hsmall => exact printable_cons.2 ⟨hdigit n hsmall, printable_nil⟩
    case isFalse hlarge =>
      rw [List.map_append]
      exact printable_append.2 ⟨ih (n / 16) (by omega),
        printable_cons.2 ⟨hdigit _ (Nat.mod_lt n (by decide)), printable_nil⟩⟩

theorem printable_hex (width n : Nat) : Printable (hex width n) :=
  printable_append.2 ⟨printable_replicate _ rfl, printable_digits n⟩

theorem printable_doubleChar (a : Char) : Printable (doubleChar a) := by
  have hletter : ∀ letter, escapeLetter? a = some letter → Style.isPrintable letter = true := by
    intro letter h
    unfold escapeLetter? at h
    split at h <;> cases h <;> rfl
  unfold doubleChar
  split
  case h_1 letter h =>
    exact printable_cons.2 ⟨rfl, printable_cons.2 ⟨hletter letter h, printable_nil⟩⟩
  case h_2 =>
    split
    case isTrue hprint => exact printable_cons.2 ⟨hprint, printable_nil⟩
    case isFalse =>
      have hcode (letter : Char) (hprint : Style.isPrintable letter = true) (width n : Nat) :
          Printable ('\\' :: letter :: hex width n) :=
        printable_cons.2 ⟨rfl, printable_cons.2 ⟨hprint, printable_hex width n⟩⟩
      split
      · exact hcode 'x' rfl _ _
      · split
        · exact hcode 'u' rfl _ _
        · exact hcode 'U' rfl _ _

theorem printable_of_plain {text : List Char} (h : Style.allowsPlain text = true) :
    Printable text := by
  simp only [Style.allowsPlain, Bool.and_eq_true, Bool.not_eq_true'] at h
  exact Style.printable_of_needsEscape h.1.1.1.1

theorem printable_text (column : Nat) (s : String) : Printable (text column s) := by
  cases hstyle : Style.ofText s with
  | plain =>
    rw [text_of_plain hstyle]
    exact printable_of_plain (Style.allowsPlain_of_plain hstyle).1
  | single =>
    rw [text_of_single hstyle]
    exact printable_printed column (Style.fit_of_single hstyle)
  | double =>
    rw [text_of_double hstyle]
    refine printable_cons.2 ⟨rfl, printable_append.2 ⟨fun a ha => ?_, ?_⟩⟩
    · obtain ⟨b, -, hb⟩ := List.mem_flatMap.1 ha
      exact printable_doubleChar b a hb
    · exact printable_cons.2 ⟨rfl, printable_nil⟩
  | literal =>
    obtain ⟨hprintable, -⟩ := Style.printable_of_literal hstyle
    rw [text_of_literal hstyle]
    exact printable_append.2 ⟨printable_cons.2 ⟨rfl, Block.printable_literalMarks _⟩,
      printable_cons.2 ⟨rfl, printable_literalLines column true hprintable⟩⟩

theorem printable_leaf {t : Tree} (h : t.hasParts = false) : Printable (leaf column t) := by
  match t with
  | .string s => exact printable_text column s
  | .number x => exact printable_of_plain (Style.allowsPlain_number x).1
  | .bool true =>
    show Printable "true".toList
    exact printable_of_plain (by decide)
  | .bool false =>
    show Printable "false".toList
    exact printable_of_plain (by decide)
  | .null | .infinite | .unkeyed | .unreadable | .broken =>
    show Printable "null".toList
    exact printable_of_plain (by decide)
  | .array [] | .object [] => exact printable_cons.2 ⟨rfl, printable_cons.2 ⟨rfl, printable_nil⟩⟩
  | .array (_ :: _) | .object (_ :: _) => cases h

theorem printable_endLine {text : List Char} (h : Printable text) : Printable (endLine text) := by
  unfold endLine
  split
  · exact h
  · exact printable_append.2 ⟨h, printable_cons.2 ⟨rfl, printable_nil⟩⟩

theorem printable_key : Printable (key column name) := by
  have htext := printable_text (column + 2) name
  unfold key
  split
  · exact printable_append.2 ⟨htext, printable_cons.2 ⟨rfl, printable_nil⟩⟩
  · simp only [printable_cons, printable_append]
    exact ⟨⟨⟨rfl, rfl, printable_endLine htext⟩, printable_replicate _ rfl⟩, rfl, printable_nil⟩

theorem printable_value {t : Tree} (h : ∀ column, Printable (block column t)) :
    Printable (value column name t) := by
  by_cases hline : Style.allowsKey name = true ∧ t.hasParts = true
  · rw [value_of_line hline.1 hline.2]
    exact printable_cons.2 ⟨rfl, printable_append.2 ⟨printable_replicate _ rfl, h _⟩⟩
  · rw [value_of_space fun hkey => by simpa using fun hparts => hline ⟨hkey, hparts⟩]
    exact printable_cons.2 ⟨rfl, h _⟩

theorem printable_items {list : List Tree}
    (h : ∀ item ∈ list, ∀ column, Printable (block column item)) :
    Printable (items column list) := by
  induction list with
  | nil =>
    rw [items]
    exact printable_nil
  | cons item rest ih =>
    obtain ⟨hitem, hrest⟩ := List.forall_mem_cons.1 h
    rw [items_cons, block_array]
    exact printable_append.2 ⟨printable_replicate _ rfl, printable_cons.2 ⟨rfl, printable_cons.2
      ⟨rfl, printable_append.2 ⟨hitem _, ih hrest⟩⟩⟩⟩

theorem printable_entries {members : List (String × Tree)}
    (h : ∀ m ∈ members, ∀ column, Printable (block column m.2)) :
    Printable (entries column members) := by
  induction members with
  | nil =>
    rw [entries]
    exact printable_nil
  | cons m rest ih =>
    obtain ⟨name, item⟩ := m
    obtain ⟨hitem, hrest⟩ := List.forall_mem_cons.1 h
    rw [entries]
    exact printable_append.2 ⟨printable_append.2 ⟨printable_append.2 ⟨printable_replicate _ rfl,
      printable_key⟩, printable_value hitem⟩, ih hrest⟩

mutual

/-- Only printable characters are printed. -/
theorem printable_block (column : Nat) (t : Tree) : Printable (block column t) := by
  match t with
  | .array (item :: rest) =>
    rw [block_array]
    exact printable_cons.2 ⟨rfl, printable_cons.2 ⟨rfl, printable_append.2
      ⟨printable_block _ item, printable_items (printable_blocks rest)⟩⟩⟩
  | .object ((name, item) :: rest) =>
    rw [block_object]
    exact printable_append.2 ⟨printable_append.2 ⟨printable_key,
      printable_value fun column => printable_block column item⟩,
      printable_entries (printable_members rest)⟩
  | .array [] | .object [] | .null | .bool _ | .number _ | .string _ | .infinite | .unkeyed
  | .unreadable | .broken =>
    rw [block_of_leaf rfl]
    exact printable_endLine (printable_leaf rfl)

theorem printable_blocks (list : List Tree) :
    ∀ item ∈ list, ∀ column, Printable (block column item) := by
  match list with
  | [] => exact List.forall_mem_nil _
  | item :: rest =>
    exact List.forall_mem_cons.2 ⟨fun column => printable_block column item, printable_blocks rest⟩

theorem printable_members (members : List (String × Tree)) :
    ∀ m ∈ members, ∀ column, Printable (block column m.2) := by
  match members with
  | [] => exact List.forall_mem_nil _
  | (name, item) :: rest =>
    exact List.forall_mem_cons.2 ⟨fun column => printable_block column item, printable_members rest⟩

end

end Printer

namespace Layout

open Printer Flowgraph.Tree

variable {c : Cursor} {found found' : List Token} {blocks blocks' : List Nat} {allowed : Bool}
  {parent n : Nat} {next rest : List Char} {name : String} {t : Tree}

/-! ### Keys -/

/-- A short key and its colon. -/
theorem leads_shortKey {b : Char} {m : Layout}
    (h : Opened .blockMapping c.column found blocks found' blocks')
    (hkey : Style.allowsKey name = true)
    (hc : c.rest = text (c.column + 2) name ++ ':' :: b :: rest) (hb : isSpace b = true)
    (hstep : (here (c.skip ((text (c.column + 2) name).length + 1))
      (.value :: textToken name :: .key :: found') blocks' false).step? = some m)
    (hm : m.cursor.rest.length ≤ (b :: rest).length) : Leads (here c found blocks true) m := by
  have htoken := token?_text found (line_of_allowsKey hkey) h.le (Nat.succ_ne_zero _) hc hb
  have hafter : (c.skip (text (c.column + 2) name).length).rest = ':' :: b :: rest := by
    rw [rest_skip, hc, List.drop_left]
  have hlength := length_text_le (c.column + 2) hkey
  have hpos := List.length_pos_iff.2 (text_ne_nil (c.column + 2) name)
  refine leads_key htoken h hafter hb rfl (Nat.add_le_add_left hlength _) (Nat.le_add_right _ _) ?_
    (by rwa [skip_skip]) hm
  rw [hafter, hc, List.length_append]
  omega

theorem rest_colon {b : Char} (hc : c.rest = text (c.column + 2) name ++ ':' :: b :: rest) :
    (c.skip ((text (c.column + 2) name).length + 1)).rest = b :: rest := by
  rw [rest_skip, hc, ← List.drop_drop, List.drop_left]
  rfl

/-- A short key with its value on the same line, -/
theorem leads_shortKey_space (h : Opened .blockMapping c.column found blocks found' blocks')
    (hkey : Style.allowsKey name = true)
    (hc : c.rest = text (c.column + 2) name ++ ':' :: ' ' :: next) (hnext : Visible next) :
    ∃ c', c'.rest = next ∧ c.column < c'.column ∧ Leads (here c found blocks true)
      (here c' (.value :: textToken name :: .key :: found') blocks' false) := by
  have hafter : (c.skip ((text (c.column + 2) name).length + 1)).rest = Printer.spaces 1 ++ next :=
    rest_colon hc
  have hcolumn : c.column < (c.skip ((text (c.column + 2) name).length + 1)).column :=
    Nat.lt_add_of_pos_right (Nat.succ_pos _)
  have hrest : ((c.skip ((text (c.column + 2) name).length + 1)).skip 1).rest = next := by
    rw [rest_skip, hafter]
    rfl
  have hstep := step?_here_spaces (.value :: textToken name :: .key :: found') false hafter hnext
    fun b hb => Nat.le_trans (h.le_head b hb) (Nat.le_of_lt (Nat.lt_succ_of_lt hcolumn))
  refine ⟨_, hrest, Nat.lt_succ_of_lt hcolumn, leads_shortKey h hkey hc rfl hstep ?_⟩
  rw [cursor_here, hrest]
  exact Nat.le_succ _

/-- or with its value on lines of its own. -/
theorem leads_shortKey_line {column : Nat}
    (h : Opened .blockMapping c.column found blocks found' blocks')
    (hkey : Style.allowsKey name = true)
    (hc : c.rest = text (c.column + 2) name ++ ':' :: '\n' :: (Printer.spaces column ++ next))
    (hnext : Visible next) (hcolumn : c.column ≤ column) :
    ∃ c', c'.rest = next ∧ c'.column = column ∧ Leads (here c found blocks true)
      (here c' (.value :: textToken name :: .key :: found') blocks' true) := by
  have hafter := rest_colon hc
  have hrest := rest_past_line hafter
  have hstep := step?_here_line (.value :: textToken name :: .key :: found') false hafter hnext
    fun b hb => Nat.le_trans (h.le_head b hb) hcolumn
  refine ⟨_, hrest, column_past_line hafter, leads_shortKey h hkey hc rfl hstep ?_⟩
  rw [cursor_here, hrest]
  simp only [List.length_cons, List.length_append]
  omega

/-- Another key, the colon of which stands on a line of its own. -/
theorem leads_longKey (h : Opened .blockMapping c.column found blocks found' blocks')
    (hc : c.rest = '?' :: ' ' :: (endLine (text (c.column + 2) name) ++
      (Printer.spaces c.column ++ ':' :: ' ' :: next)))
    (hnext : Visible next) :
    ∃ c', c'.rest = next ∧ c'.column = c.column + 2 ∧ Leads (here c found blocks true)
      (here c' (.value :: textToken name :: .key :: found') blocks' true) := by
  have hhead := h.head
  have hmark := leads_mark (here c found blocks true) hc
    (visible_endLine fun _ => visible_text name) (token?_key h hc) h.le_head
  have hrest : (c.skip 2).rest = endLine (text (c.column + 2) name) ++
      (Printer.spaces c.column ++ ':' :: ' ' :: next) := by
    rw [rest_skip, hc]
    rfl
  have hcolon : Visible (':' :: ' ' :: next) := visible_cons (by decide)
  have hname := arrives_text (.key :: found') true hhead (Nat.lt_add_of_pos_right Nat.two_pos)
    hcolon (Nat.le_refl _) name hrest
  obtain ⟨c', hrest', hcolumn', htext⟩ := hname.here h.le_head
  rw [← hcolumn'] at hhead
  have hopen : Opened .blockMapping c'.column (textToken name :: .key :: found') blocks' _ _ :=
    Opened.again hhead
  have hvalue := leads_mark (here c' (textToken name :: .key :: found') blocks' true)
    hrest' hnext (token?_value hopen hrest') hopen.le_head
  refine ⟨c'.skip 2, ?_, ?_, (hmark.trans htext).trans hvalue⟩
  · rw [rest_skip, hrest']
    rfl
  · rw [column_skip, hcolumn']

/-! ### Collections -/

/-- The token that opens a collection. -/
def opening : Tree → Token
  | .object _ => .blockMapping
  | _ => .blockSequence

/-- Whether the scanner takes a collection at a column to the tokens of its parts. -/
def Scans (t : Tree) : Prop :=
  t.hasParts = true → ∀ (c : Cursor) (found found' : List Token) (blocks blocks' : List Nat)
    (n : Nat) (next : List Char), Opened (opening t) c.column found blocks found' blocks' → n ≤ c.column →
    Visible next → c.rest = block c.column t ++ (Printer.spaces n ++ next) →
    Arrives (here c found blocks true) (t.content.reverse ++ found') blocks' n next

/-- A tree that stands further right than the block around it. -/
theorem arrives_block (found : List Token) (ht : Scans t) (hparent : blocks.head? = some parent)
    (hcolumn : c.column = parent + 2) (hn : n ≤ parent) (hnext : Visible next)
    (hc : c.rest = block (parent + 2) t ++ (Printer.spaces n ++ next)) :
    Arrives (here c found blocks true) (t.tokens.reverse ++ found) blocks n next := by
  have hless : parent < c.column := by omega
  cases hparts : t.hasParts with
  | false =>
    rw [block_of_leaf hparts] at hc
    exact arrives_leaf found true hparent hless hnext hn hparts hc
  | true =>
    have hopened : Opened (opening t) c.column found blocks (opening t :: found)
        (c.column :: blocks) := Or.inl ⟨fun b hb => by
      rwa [Option.some.inj (hb.symm.trans hparent)], rfl, rfl⟩
    rw [← hcolumn] at hc
    have hscanned := ht hparts c found _ blocks _ n next hopened (by omega) hnext hc
    have hclosed := hscanned.close (by omega)
    have htokens : t.tokens = opening t :: t.content ++ [.blockEnd] := by
      match t with
      | .array (_ :: _) | .object (_ :: _) => rfl
      | .array [] | .object [] | .null | .bool _ | .number _ | .string _ | .infinite | .unkeyed
      | .unreadable | .broken => cases hparts
    rw [htokens]
    simpa using hclosed

/-- An entry of a mapping. -/
theorem arrives_entry (ht : Scans t)
    (h : Opened .blockMapping c.column found blocks found' blocks') (hn : n ≤ c.column)
    (hnext : Visible next)
    (hc : c.rest = key c.column name ++ (value c.column name t ++ (Printer.spaces n ++ next))) :
    Arrives (here c found blocks true)
      ((t.valueTokens name).reverse ++ .value :: textToken name :: .key :: found') blocks' n
      next := by
  by_cases hkey : Style.allowsKey name = true
  case pos =>
    have hshort : key c.column name = text (c.column + 2) name ++ [':'] := if_pos hkey
    rw [hshort, List.append_assoc, List.singleton_append] at hc
    cases hparts : t.hasParts with
    | false =>
      rw [value_of_space fun _ => hparts, block_of_leaf hparts] at hc
      obtain ⟨c', hrest, hcolumn, hleads⟩ := leads_shortKey_space h hkey hc
        (visible_endLine fun _ => visible_leaf hparts)
      rw [valueTokens_of_not_hangs (hangs_of_leaf hparts)]
      exact hleads.arrives (arrives_leaf _ _ h.head hcolumn hnext hn hparts hrest)
    | true =>
      rw [value_of_line hkey hparts, List.cons_append, List.append_assoc] at hc
      obtain ⟨c', hrest, hcolumn, hleads⟩ := leads_shortKey_line h hkey hc (visible_block t)
        (le_valueColumn t)
      refine hleads.arrives ?_
      match t with
      | .array items =>
        have hcolumn : c'.column = c.column := hcolumn
        rw [valueTokens, hangs_of_array hkey hparts, if_pos rfl]
        refine ht hparts c' _ _ blocks' blocks' n next (Opened.again (hcolumn ▸ h.head))
          (hcolumn ▸ hn) hnext ?_
        rw [hrest, hcolumn]
        rfl
      | .object members =>
        rw [valueTokens_of_not_hangs rfl]
        exact arrives_block _ ht h.head hcolumn hn hnext hrest
      | .null | .bool _ | .number _ | .string _ | .infinite | .unkeyed | .unreadable | .broken =>
        cases hparts
  case neg =>
    have hlong : key c.column name = '?' :: ' ' :: endLine (text (c.column + 2) name) ++
      Printer.spaces c.column ++ [':'] := if_neg hkey
    rw [hlong, value_of_space fun h => absurd h hkey] at hc
    simp only [List.append_assoc, List.cons_append, List.nil_append] at hc
    obtain ⟨c', hrest, hcolumn, hleads⟩ := leads_longKey h hc (visible_block t)
    rw [valueTokens_of_not_hangs (hangs_of_not_allowsKey hkey t)]
    exact hleads.arrives (arrives_block _ ht h.head hcolumn hn hnext hrest)

/-- The items of a sequence. -/
theorem arrives_items {items : List Tree} (hitems : ∀ item ∈ items, Scans item) (hne : items ≠ [])
    (h : Opened .blockSequence c.column found blocks found' blocks') (hn : n ≤ c.column)
    (hnext : Visible next)
    (hc : c.rest = block c.column (.array items) ++ (Printer.spaces n ++ next)) :
    Arrives (here c found blocks true) ((itemTokens items).reverse ++ found') blocks' n next := by
  induction items generalizing c found blocks found' blocks' with
  | nil => exact absurd rfl hne
  | cons item rest ih =>
    obtain ⟨hitem, hrest⟩ := List.forall_mem_cons.1 hitems
    rw [block_array, List.cons_append, List.cons_append, List.append_assoc] at hc
    have hmark := leads_mark (here c found blocks true) hc (visible_block item)
      (token?_item h hc) h.le_head
    have hafter : (c.skip 2).rest =
        block (c.column + 2) item ++ (items c.column rest ++ (Printer.spaces n ++ next)) := by
      rw [rest_skip, hc]
      rfl
    refine hmark.arrives ?_
    rw [itemTokens_cons]
    cases rest with
    | nil =>
      rw [Printer.items, List.nil_append] at hafter
      have harrives := arrives_block (.item :: found') hitem h.head rfl hn hnext hafter
      simpa [itemTokens] using harrives
    | cons second rest =>
      rw [items_cons, List.append_assoc] at hafter
      obtain ⟨c', hrest', hcolumn', hleads⟩ := (arrives_block (.item :: found') hitem h.head
        rfl (Nat.le_refl _) (visible_block _) hafter).here h.le_head
      rw [← hcolumn'] at hrest' hn
      have hagain : Opened .blockSequence c'.column (item.tokens.reverse ++ .item :: found') blocks'
        _ _ := Opened.again (hcolumn' ▸ h.head)
      simpa using hleads.arrives (ih hrest (List.cons_ne_nil _ _) hagain hn hrest')

/-- The entries of a mapping. -/
theorem arrives_entries {members : List (String × Tree)} (hmembers : ∀ m ∈ members, Scans m.2)
    (hne : members ≠ []) (h : Opened .blockMapping c.column found blocks found' blocks')
    (hn : n ≤ c.column) (hnext : Visible next)
    (hc : c.rest = block c.column (.object members) ++ (Printer.spaces n ++ next)) :
    Arrives (here c found blocks true) ((memberTokens members).reverse ++ found') blocks' n
      next := by
  induction members generalizing c found blocks found' blocks' with
  | nil => exact absurd rfl hne
  | cons m rest ih =>
    obtain ⟨name, item⟩ := m
    obtain ⟨hitem, hrest⟩ := List.forall_mem_cons.1 hmembers
    rw [block_object, List.append_assoc, List.append_assoc] at hc
    rw [memberTokens_cons]
    cases rest with
    | nil =>
      rw [Printer.entries, List.nil_append] at hc
      simpa [memberTokens] using arrives_entry hitem h hn hnext hc
    | cons second rest =>
      rw [entries_cons, List.append_assoc] at hc
      obtain ⟨c', hrest', hcolumn', hleads⟩ := (arrives_entry hitem h (Nat.le_refl _)
        (visible_block _) hc).here h.le_head
      rw [← hcolumn'] at hrest' hn
      have hagain : Opened .blockMapping c'.column ((item.valueTokens name).reverse ++
        .value :: textToken name :: .key :: found') blocks' _ _ := Opened.again (hcolumn' ▸ h.head)
      simpa using hleads.arrives (ih hrest (List.cons_ne_nil _ _) hagain hn hrest')

theorem scans_array {items : List Tree} (hitems : ∀ item ∈ items, Scans item) :
    Scans (.array items) := by
  intro hparts c found found' blocks blocks' n next h hn hnext hc
  match items with
  | [] => cases hparts
  | item :: rest =>
    rw [content_array]
    exact arrives_items hitems (List.cons_ne_nil _ _) h hn hnext hc

theorem scans_object {members : List (String × Tree)} (hmembers : ∀ m ∈ members, Scans m.2) :
    Scans (.object members) := by
  intro hparts c found found' blocks blocks' n next h hn hnext hc
  match members with
  | [] => cases hparts
  | m :: rest =>
    rw [content_object]
    exact arrives_entries hmembers (List.cons_ne_nil _ _) h hn hnext hc

mutual

/-- **Every collection is taken to its tokens.** -/
theorem scans (t : Tree) : Scans t := by
  match t with
  | .array items => exact scans_array (scans_items items)
  | .object members => exact scans_object (scans_members members)
  | .null | .bool _ | .number _ | .string _ | .infinite | .unkeyed | .unreadable | .broken =>
    intro hparts
    cases hparts

theorem scans_items (items : List Tree) : ∀ item ∈ items, Scans item := by
  match items with
  | [] => exact List.forall_mem_nil _
  | item :: rest => exact List.forall_mem_cons.2 ⟨scans item, scans_items rest⟩

theorem scans_members (members : List (String × Tree)) : ∀ m ∈ members, Scans m.2 := by
  match members with
  | [] => exact List.forall_mem_nil _
  | (name, item) :: rest => exact List.forall_mem_cons.2 ⟨scans item, scans_members rest⟩

end

end Layout

open Layout in
/-- **The text of a mapping goes to the tokens of the mapping.** -/
theorem ofText?_write (m : String × Tree) (rest : List (String × Tree)) :
    Token.ofText? (write (.object (m :: rest))) = some (Tree.object (m :: rest)).tokens := by
  let text := Printer.block 0 (.object (m :: rest))
  let start : Cursor := ⟨text, 0, 0, 0⟩
  have hwrite : (write (.object (m :: rest))).toList = text := by
    rw [write, String.toList_ofList, Printer.document, Printer.entries_cons]
    rfl
  have hallowed : text.all isAllowed = true :=
    List.all_eq_true.2 fun a ha => isAllowed_of_isPrintable (Printer.printable_block _ _ a ha)
  have hvisible : Visible text := by
    rw [← List.append_nil text]
    exact Printer.visible_block _
  have houtside : ∀ b ∈ ([] : List Nat).head?, b ≤ 0 := fun b hb => by cases hb
  have hstep := step?_here_spaces (c := start) (k := 0) [] true rfl hvisible houtside
  have hopened : Opened .blockMapping start.column [] [] [.blockMapping] [0] :=
    Or.inl ⟨fun b hb => (by cases hb), rfl, rfl⟩
  obtain ⟨c, hrest, -, hleads⟩ := (scans (.object (m :: rest)) rfl start _ _ _ _ 0 [] hopened
    (Nat.le_refl 0) (fun b hb => by cases hb) (List.append_nil text).symm).here hopened.le_head
  have hrun := run?_of_leads hstep hleads hrest (Nat.le_refl _)
  unfold Token.ofText?
  dsimp only
  rw [hwrite, if_pos hallowed]
  refine hrun.trans ?_
  rw [finish?_here]
  simp [Tree.tokens_object, Tree.content_object]

/-- The text of a mapping is that of its node. -/
theorem Node.ofText?_write (m : String × Tree) (rest : List (String × Tree)) :
    Node.ofText? (write (.object (m :: rest))) = some (Tree.object (m :: rest)).node := by
  unfold Node.ofText?
  rw [Yaml.ofText?_write]
  simp only [bind, Option.bind_some, Node.ofTokens?_tokens, Tree.number?_node]
  rfl

/-- **The text of a mapping is read as the mapping** where its shape is expected, if it is nested no
deeper than allowed. -/
theorem Shape.read?_write {shape : Shape} {m : String × Tree} {rest : List (String × Tree)}
    (h : ∀ a, Reads a shape (.object (m :: rest))) :
    shape.read? (write (.object (m :: rest))) =
      if (Tree.object (m :: rest)).depth ≤ depthLimit then some (.object (m :: rest))
      else none := by
  unfold Shape.read?
  rw [Node.ofText?_write]
  simp only [bind, Option.bind_some]
  rw [h _ depthLimit]
  split <;> rfl

end Flowgraph.Yaml
