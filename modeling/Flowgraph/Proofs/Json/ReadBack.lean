import Flowgraph.Proofs.Json.Literal
import Flowgraph.Proofs.Tree.Leaves

/-!
# JSON text is read back

The text of a tree on one line is read as that tree (`read_compact`), if every leaf has a value,
every binary number in it is read back and at most 127 containers lie within each other.
-/

set_option autoImplicit false

namespace Flowgraph

/-- Whether a binary number is written so that it is read back as itself. -/
def Binary64.ReadsBack (x : Binary64) : Prop :=
  Json.read (Json.compact (.number (.float x))) = ⟨.number (.float x), true⟩

namespace Json.Reader

open Json.Printer (character string compactItems compactMembers)

variable {rest : List Char}

/-! ### Strings -/

theorem ofDigits?_hex {n : Nat} (h : n < 0x20) :
    Text.ofDigits? 16 ['0', '0', Printer.hexDigit (n / 16), Printer.hexDigit n] = some n := by
  revert n
  decide

/-- What is read of a text that begins with the character `c` inside quotes. -/
def withFirst (c : Char) (found : Option (Option (List Char) × List Char)) :
    Option (Option (List Char) × List Char) :=
  found.map fun read => (read.1.map (c :: ·), read.2)

theorem withFirst_eq_bind (c : Char) (found : Option (Option (List Char) × List Char)) :
    withFirst c found = found.bind fun read => some (read.1.map (c :: ·), read.2) := by
  cases found <;> rfl

theorem characters_escape {c letter : Char} (hletter : letter ≠ 'u')
    (h : escape? letter = some c) (fuel : Nat) (text : List Char) :
    characters (fuel + 1) ('\\' :: letter :: text) = withFirst c (characters fuel text) := by
  simp [characters, withFirst_eq_bind, h]

theorem characters_control {c : Char} (h : c.toNat < 0x20) (fuel : Nat) (text : List Char) :
    characters (fuel + 1) ('\\' :: 'u' :: '0' :: '0' :: Printer.hexDigit (c.toNat / 16) ::
      Printer.hexDigit c.toNat :: text) = withFirst c (characters fuel text) := by
  have hlead : isLead c.toNat = false := by simp [isLead]; omega
  have htrail : isTrail c.toNat = false := by simp [isTrail]; omega
  simp [characters, withFirst_eq_bind, hex4?, ofDigits?_hex h, hlead, htrail, Char.ofNat_toNat]

theorem characters_plain {c : Char} (hquote : c ≠ '"') (hbackslash : c ≠ '\\')
    (h : 0x20 ≤ c.toNat) (fuel : Nat) (text : List Char) :
    characters (fuel + 1) (c :: text) = withFirst c (characters fuel text) := by
  simp [characters, withFirst_eq_bind, hbackslash, Nat.not_lt.2 h]

/-- A character is read back from the way it is written inside quotes. -/
theorem characters_character (c : Char) (fuel : Nat) (text : List Char) :
    characters (fuel + 1) (character c ++ text) = withFirst c (characters fuel text) := by
  unfold character
  split_ifs with hquote hbackslash hline hreturn htab hback hfeed hcontrol
  · subst hquote
    exact characters_escape (by decide) rfl fuel text
  · subst hbackslash
    exact characters_escape (by decide) rfl fuel text
  · subst hline
    exact characters_escape (by decide) rfl fuel text
  · subst hreturn
    exact characters_escape (by decide) rfl fuel text
  · subst htab
    exact characters_escape (by decide) rfl fuel text
  · subst hback
    exact characters_escape (by decide) rfl fuel text
  · subst hfeed
    exact characters_escape (by decide) rfl fuel text
  · exact characters_control hcontrol fuel text
  · exact characters_plain hquote hbackslash (Nat.not_lt.1 hcontrol) fuel text

theorem characters_flatMap (cs : List Char) {fuel : Nat} (h : cs.length < fuel) :
    characters fuel (cs.flatMap character ++ '"' :: rest) = some (some cs, rest) := by
  induction cs generalizing fuel with
  | nil =>
    obtain ⟨fuel, rfl⟩ := Nat.exists_eq_add_one.2 h
    rfl
  | cons c cs ih =>
    obtain ⟨fuel, rfl⟩ := Nat.exists_eq_add_one.2 (Nat.zero_lt_of_lt h)
    rw [List.flatMap_cons, List.append_assoc, characters_character,
      ih (Nat.lt_of_succ_lt_succ h)]
    rfl

theorem length_le_flatMap (cs : List Char) : cs.length ≤ (cs.flatMap character).length := by
  induction cs with
  | nil => exact Nat.le_refl _
  | cons c cs ih =>
    have hcharacter : 1 ≤ (character c).length := by
      unfold character
      split_ifs <;> simp
    rw [List.flatMap_cons, List.length_append, List.length_cons]
    omega

theorem quoted_flatMap (s : String) :
    quoted (s.toList.flatMap character ++ '"' :: rest) = some (some s, rest) := by
  have hlength : s.toList.length < (s.toList.flatMap character ++ '"' :: rest).length + 1 := by
    have hle := length_le_flatMap s.toList
    simp only [List.length_append]
    omega
  rw [quoted, characters_flatMap _ hlength, Option.map_some]
  exact congrArg (fun s => some (some s, rest)) String.ofList_toList

/-! ### Numbers -/

theorem skip_of_not_isSpace {c : Char} (h : isSpace c = false) (text : List Char) :
    skip (c :: text) = c :: text := by
  rw [skip, List.dropWhile_cons, h]
  rfl

theorem isSpace_of_isNumeral {c : Char} (h : Decimal.Layout.IsNumeral c) : isSpace c = false := by
  have hother : ∀ d : Char, ¬Decimal.Layout.IsNumeral d → c ≠ d := by
    rintro d hd rfl
    exact hd h
  simp [isSpace, hother ' ' (by decide), hother '\t' (by decide), hother '\n' (by decide),
    hother '\r' (by decide)]

/-- A text that begins with a sign or a digit is read as a number. -/
theorem value_number {c : Char} (h : c = '-' ∨ c.isDigit = true) (fuel depth : Nat)
    (text : List Char) : value (fuel + 1) depth (c :: text) =
      (literal? (c :: text)).elim (.broken, none) fun found =>
        ((Number.ofLiteral? found.1).elim .unreadable .number, some found.2) := by
  have hother : ∀ d : Char, ¬(d = '-' ∨ d.isDigit = true) → c ≠ d := by
    rintro d hd rfl
    exact hd h
  have hnumeral : Decimal.Layout.IsNumeral c := h.elim (Or.inr ∘ Or.inl) Or.inl
  rw [value, skip_of_not_isSpace (isSpace_of_isNumeral hnumeral)]
  split
  case h_1 heq => cases heq
  case h_2 heq => exact absurd (List.cons.inj heq).1 (hother '{' (by decide))
  case h_3 heq => exact absurd (List.cons.inj heq).1 (hother '[' (by decide))
  case h_4 heq => exact absurd (List.cons.inj heq).1 (hother '"' (by decide))
  case h_5 heq =>
    cases heq
    rw [if_pos h]
    cases literal? (c :: text) <;> rfl

theorem value_string (s : String) (fuel depth : Nat) :
    value (fuel + 1) depth (string s ++ rest) = (.string s, some rest) := by
  have hstring : string s ++ rest = '"' :: (s.toList.flatMap character ++ '"' :: rest) := by
    simp [string]
  rw [hstring, value, skip_of_not_isSpace rfl]
  simp only [quoted_flatMap]

theorem value_object (fuel depth : Nat) (text : List Char) :
    value (fuel + 1) depth ('{' :: text) = capped depth
      (.object (firstMember fuel (depth - 1) text).1, (firstMember fuel (depth - 1) text).2) := by
  rw [value, skip_of_not_isSpace rfl]
  rfl

theorem value_array (fuel depth : Nat) (text : List Char) :
    value (fuel + 1) depth ('[' :: text) = capped depth
      (.array (firstItem fuel (depth - 1) text).1, (firstItem fuel (depth - 1) text).2) := by
  rw [value, skip_of_not_isSpace rfl]
  rfl

theorem value_true (fuel depth : Nat) :
    value (fuel + 1) depth ("true".toList ++ rest) = (.bool true, some rest) := by
  have hspace : skip ("true".toList ++ rest) = 't' :: 'r' :: 'u' :: 'e' :: rest := rfl
  rw [value, hspace]
  rfl

theorem value_false (fuel depth : Nat) :
    value (fuel + 1) depth ("false".toList ++ rest) = (.bool false, some rest) := by
  have hspace : skip ("false".toList ++ rest) = 'f' :: 'a' :: 'l' :: 's' :: 'e' :: rest := rfl
  rw [value, hspace]
  rfl

theorem value_null (fuel depth : Nat) :
    value (fuel + 1) depth ("null".toList ++ rest) = (.null, some rest) := by
  have hspace : skip ("null".toList ++ rest) = 'n' :: 'u' :: 'l' :: 'l' :: rest := rfl
  rw [value, hspace]
  rfl

/-! ### Trees -/

/-- A number is read back from its literal, whatever follows it. -/
theorem value_literal {text : List Char} {l : Number.Literal} {n : Number}
    (hhead : ∃ c ∈ text.head?, c = '-' ∨ c.isDigit = true)
    (hliteral : literal? text = some (l, [])) (hvalue : Number.ofLiteral? l = some n)
    (fuel depth : Nat) (h : Follows rest) :
    value (fuel + 1) depth (text ++ rest) = (.number n, some rest) := by
  obtain ⟨c, hc, hnumeral⟩ := hhead
  obtain ⟨text, rfl⟩ := List.head?_eq_some_iff.1 hc
  rw [List.cons_append, value_number hnumeral, ← List.cons_append, literal?_append hliteral h,
    Option.elim_some, hvalue]
  rfl

theorem value_integer {n : Int} (hn : leastInteger ≤ n ∧ n ≤ greatestInteger)
    (fuel depth : Nat) (h : Follows rest) :
    value (fuel + 1) depth (Number.integerText n ++ rest) =
      (.number (.integer n hn), some rest) := by
  exact value_literal (Number.head?_integerText n) (Number.literal?_integerText n)
    (Number.ofLiteral?_literal hn) fuel depth h

/-- A number that is read back is written as a literal that has it as its value. -/
theorem literal?_of_readsBack {x : Binary64} (hx : x.ReadsBack) :
    ∃ l, literal? (Number.layout.write x) = some (l, []) ∧
      Number.ofLiteral? l = some (.float x) := by
  obtain ⟨c, hc, hnumeral⟩ := Decimal.Layout.head?_write Number.layout x
  obtain ⟨text, htext⟩ := List.head?_eq_some_iff.1 hc
  have hread : Json.read (String.ofList (Number.layout.write x)) =
    ⟨.number (.float x), true⟩ := hx
  unfold Json.read at hread
  dsimp only at hread
  rw [String.toList_ofList, htext, value_number hnumeral, ← htext] at hread
  cases hliteral : literal? (Number.layout.write x) with
  | none =>
    rw [hliteral] at hread
    simp at hread
  | some found =>
    obtain ⟨l, left⟩ := found
    simp only [hliteral, Option.elim_some, Document.mk.injEq, List.isEmpty_iff] at hread
    obtain ⟨hvalue, hskip⟩ := hread
    -- nothing but blanks is left, and a number has none
    obtain rfl : left = [] := by
      cases left with
      | nil => rfl
      | cons d left =>
        have hnumeral := Decimal.Layout.isNumeral_write Number.layout x d
          ((suffix_of_literal? hliteral).subset (List.mem_cons_self ..))
        rw [skip_of_not_isSpace (isSpace_of_isNumeral hnumeral)] at hskip
        cases hskip
    refine ⟨l, rfl, ?_⟩
    cases hl : Number.ofLiteral? l with
    | none => simp [hl] at hvalue
    | some n => simpa [hl] using hvalue

theorem readsBack_of_literal? {x : Binary64} {l : Number.Literal}
    (hliteral : literal? (Number.layout.write x) = some (l, []))
    (hvalue : Number.ofLiteral? l = some (.float x)) : x.ReadsBack := by
  have hread := fun fuel depth =>
    value_literal (Decimal.Layout.head?_write Number.layout x) hliteral hvalue fuel depth follows_nil
  show Json.read (String.ofList (Number.layout.write x)) = _
  unfold Json.read
  simp only [List.append_nil] at hread
  rw [String.toList_ofList]
  simp only [hread]
  rfl

instance (x : Binary64) : Decidable x.ReadsBack :=
  decidable_of_iff ((literal? (Number.layout.write x)).any (fun found =>
      found.2.isEmpty && Number.ofLiteral? found.1 = some (.float x)) = true) <| by
    constructor
    · intro h
      obtain ⟨⟨l, left⟩, hliteral, hvalue⟩ := (Option.any_eq_true ..).1 h
      simp only [Bool.and_eq_true, List.isEmpty_iff, decide_eq_true_eq] at hvalue
      obtain ⟨rfl, hvalue⟩ := hvalue
      exact readsBack_of_literal? hliteral hvalue
    · intro h
      obtain ⟨l, hliteral, hvalue⟩ := literal?_of_readsBack h
      simp [hliteral, hvalue]

theorem value_float {x : Binary64} (hx : x.ReadsBack) (fuel depth : Nat) (h : Follows rest) :
    value (fuel + 1) depth (Number.layout.write x ++ rest) = (.number (.float x), some rest) := by
  obtain ⟨l, hliteral, hvalue⟩ := literal?_of_readsBack hx
  exact value_literal (Decimal.Layout.head?_write _ x) hliteral hvalue fuel depth h

/-- What a leaf has to be so that it is read back. -/
def Legible (leaf : Tree) : Prop :=
  leaf.IsValue ∧ ∀ x, leaf = .number (.float x) → x.ReadsBack

/-- A tree is written with something other than a blank or a closing bracket first. -/
theorem head?_compact (t : Tree) :
    ∃ c ∈ (Printer.compact t).head?, isSpace c = false ∧ c ≠ ']' := by
  match t with
  | .array items => exact ⟨'[', by simp [Printer.compact], rfl, by decide⟩
  | .object members => exact ⟨'{', by simp [Printer.compact], rfl, by decide⟩
  | .bool true => exact ⟨'t', rfl, rfl, by decide⟩
  | .bool false => exact ⟨'f', rfl, rfl, by decide⟩
  | .string s => exact ⟨'"', rfl, rfl, by decide⟩
  | .null | .infinite | .unkeyed | .unreadable | .broken => exact ⟨'n', rfl, rfl, by decide⟩
  | .number n =>
    obtain ⟨c, hc, hnumeral⟩ : ∃ c ∈ (n.text Number.layout).head?, c = '-' ∨ c.isDigit = true := by
      cases n with
      | integer n => exact Number.head?_integerText n
      | float x => exact Decimal.Layout.head?_write _ x
    refine ⟨c, hc, isSpace_of_isNumeral (hnumeral.elim (Or.inr ∘ Or.inl) Or.inl), ?_⟩
    rintro rfl
    exact absurd hnumeral (by decide)

theorem compactItems_cons (item next : Tree) (more : List Tree) :
    compactItems (item :: next :: more) =
      Printer.compact item ++ ',' :: compactItems (next :: more) := by
  simp [compactItems]

theorem compactMembers_cons (name : String) (item : Tree) (next : String × Tree)
    (more : List (String × Tree)) : compactMembers ((name, item) :: next :: more) =
      string name ++ ':' :: (Printer.compact item ++ ',' :: compactMembers (next :: more)) := by
  simp [compactMembers]

theorem head?_compactItems (item : Tree) (more : List Tree) :
    ∃ c ∈ (compactItems (item :: more)).head?, isSpace c = false ∧ c ≠ ']' := by
  obtain ⟨c, hc, hfirst⟩ := head?_compact item
  refine ⟨c, ?_, hfirst⟩
  cases more with
  | nil => exact hc
  | cons next more =>
    rw [compactItems_cons, List.head?_append, Option.mem_def.1 hc]
    rfl

theorem head?_compactMembers (entry : String × Tree) (more : List (String × Tree)) :
    ∃ text, compactMembers (entry :: more) = '"' :: text := by
  cases more with
  | nil => exact ⟨_, rfl⟩
  | cons next more => exact ⟨_, rfl⟩

theorem capped_of_pos {depth : Nat} (h : 0 < depth) (found : Tree × Rest) :
    capped depth found = found := by
  obtain ⟨tree, _ | left⟩ := found <;> simp [capped, Nat.ne_of_gt h]

theorem firstItem_nil (fuel depth : Nat) :
    firstItem (fuel + 1) depth (']' :: rest) = ([], some rest) := by
  rw [firstItem, skip_of_not_isSpace rfl]
  rfl

theorem firstItem_of_ne {c : Char} (hspace : isSpace c = false) (hclose : c ≠ ']')
    (fuel depth : Nat) (text : List Char) :
    firstItem (fuel + 1) depth (c :: text) = items fuel depth (c :: text) := by
  rw [firstItem, skip_of_not_isSpace hspace]
  split
  case h_1 heq => exact absurd (List.cons.inj heq).1 hclose
  case h_2 => rfl

theorem firstMember_nil (fuel depth : Nat) :
    firstMember (fuel + 1) depth ('}' :: rest) = ([], some rest) := by
  rw [firstMember, skip_of_not_isSpace rfl]
  rfl

theorem firstMember_quote (fuel depth : Nat) (text : List Char) :
    firstMember (fuel + 1) depth ('"' :: text) = members fuel depth ('"' :: text) := by
  rw [firstMember, skip_of_not_isSpace rfl]
  rfl

theorem items_last {fuel depth : Nat} {text : List Char} {item : Tree}
    (h : value fuel depth text = (item, some (']' :: rest))) :
    items (fuel + 1) depth text = ([item], some rest) := by
  rw [items, h]
  simp only [skip_of_not_isSpace (c := ']') rfl]

theorem items_more {fuel depth : Nat} {text : List Char} {item : Tree}
    (h : value fuel depth text = (item, some (',' :: rest))) :
    items (fuel + 1) depth text =
      (item :: (items fuel depth rest).1, (items fuel depth rest).2) := by
  rw [items, h]
  simp only [skip_of_not_isSpace (c := ',') rfl]

theorem members_last (name : String) {fuel depth : Nat} {text : List Char} {item : Tree}
    (h : value fuel depth text = (item, some ('}' :: rest))) :
    members (fuel + 1) depth (string name ++ ':' :: text) = ([(name, item)], some rest) := by
  have hstring : string name ++ ':' :: text =
      '"' :: (name.toList.flatMap character ++ '"' :: ':' :: text) := by simp [string]
  rw [hstring, members, skip_of_not_isSpace rfl]
  simp only [quoted_flatMap, skip_of_not_isSpace (c := ':') rfl, h,
    skip_of_not_isSpace (c := '}') rfl]

theorem members_more (name : String) {fuel depth : Nat} {text : List Char} {item : Tree}
    (h : value fuel depth text = (item, some (',' :: rest))) :
    members (fuel + 1) depth (string name ++ ':' :: text) =
      ((name, item) :: (members fuel depth rest).1, (members fuel depth rest).2) := by
  have hstring : string name ++ ':' :: text =
      '"' :: (name.toList.flatMap character ++ '"' :: ':' :: text) := by simp [string]
  rw [hstring, members, skip_of_not_isSpace rfl]
  simp only [quoted_flatMap, skip_of_not_isSpace (c := ':') rfl, h,
    skip_of_not_isSpace (c := ',') rfl]

mutual

theorem value_compact (t : Tree) (hleaves : ∀ leaf ∈ t.leaves, Legible leaf) {fuel depth : Nat}
    (hfuel : 2 * (Printer.compact t).length < fuel) (hdepth : t.depth ≤ depth)
    {rest : List Char} (h : Follows rest) :
    value fuel depth (Printer.compact t ++ rest) = (t, some rest) := by
  obtain ⟨fuel, rfl⟩ := Nat.exists_eq_add_one.2 (Nat.zero_lt_of_lt hfuel)
  match t with
  | .array trees =>
    simp only [Printer.compact, List.length_append, List.length_cons, List.length_nil] at hfuel
    obtain ⟨fuel, rfl⟩ : ∃ k, fuel = k + 1 := Nat.exists_eq_add_one.2 (by omega)
    have htext : Printer.compact (.array trees) ++ rest =
        '[' :: (compactItems trees ++ ']' :: rest) := by simp [Printer.compact]
    rw [htext, value_array, capped_of_pos (Nat.zero_lt_of_lt hdepth)]
    match trees with
    | [] => simp [compactItems, firstItem_nil]
    | item :: more =>
      obtain ⟨c, hc, hspace, hclose⟩ := head?_compactItems item more
      obtain ⟨text, htext⟩ := List.head?_eq_some_iff.1 hc
      rw [htext, List.cons_append, firstItem_of_ne hspace hclose, ← List.cons_append, ← htext,
        items_compact (item :: more) (List.cons_ne_nil _ _) hleaves (by omega)
          (Nat.le_sub_one_of_lt hdepth)]
  | .object entries =>
    simp only [Printer.compact, List.length_append, List.length_cons, List.length_nil] at hfuel
    obtain ⟨fuel, rfl⟩ : ∃ k, fuel = k + 1 := Nat.exists_eq_add_one.2 (by omega)
    have htext : Printer.compact (.object entries) ++ rest =
        '{' :: (compactMembers entries ++ '}' :: rest) := by simp [Printer.compact]
    rw [htext, value_object, capped_of_pos (Nat.zero_lt_of_lt hdepth)]
    match entries with
    | [] => simp [compactMembers, firstMember_nil]
    | entry :: more =>
      obtain ⟨text, htext⟩ := head?_compactMembers entry more
      rw [htext, List.cons_append, firstMember_quote, ← List.cons_append, ← htext,
        members_compact (entry :: more) (List.cons_ne_nil _ _) hleaves (by omega)
          (Nat.le_sub_one_of_lt hdepth)]
  | .null => exact value_null fuel depth
  | .bool true => exact value_true fuel depth
  | .bool false => exact value_false fuel depth
  | .number (.integer n hn) => exact value_integer hn fuel depth h
  | .number (.float x) =>
    exact value_float ((hleaves _ (List.mem_singleton_self _)).2 x rfl) fuel depth h
  | .string s => exact value_string s fuel depth
  | .infinite | .unkeyed | .unreadable | .broken =>
    exact (hleaves _ (List.mem_singleton_self _)).1.elim

theorem items_compact (trees : List Tree) (hne : trees ≠ [])
    (hleaves : ∀ leaf ∈ Tree.leavesItems trees, Legible leaf) {fuel depth : Nat}
    (hfuel : 2 * (compactItems trees).length + 1 < fuel) (hdepth : Tree.depthItems trees ≤ depth)
    {rest : List Char} :
    items fuel depth (compactItems trees ++ ']' :: rest) = (trees, some rest) := by
  obtain ⟨fuel, rfl⟩ := Nat.exists_eq_add_one.2 (Nat.zero_lt_of_lt hfuel)
  match trees with
  | [] => exact absurd rfl hne
  | [item] =>
    simp only [compactItems] at hfuel
    obtain ⟨hitem, -⟩ := List.forall_mem_append.1 hleaves
    exact items_last (value_compact item hitem (by omega) (Nat.max_le.1 hdepth).1 (by simp [Follows]))
  | item :: next :: more =>
    simp only [compactItems_cons, List.length_append, List.length_cons] at hfuel
    obtain ⟨hitem, hmore⟩ := List.forall_mem_append.1 hleaves
    obtain ⟨hfirst, hnext⟩ := Nat.max_le.1 hdepth
    rw [compactItems_cons, List.append_assoc, List.cons_append,
      items_more (value_compact item hitem (by omega) hfirst (by simp [Follows])),
      items_compact (next :: more) (List.cons_ne_nil _ _) hmore (by omega) hnext]

theorem members_compact (entries : List (String × Tree)) (hne : entries ≠ [])
    (hleaves : ∀ leaf ∈ Tree.leavesMembers entries, Legible leaf) {fuel depth : Nat}
    (hfuel : 2 * (compactMembers entries).length + 1 < fuel)
    (hdepth : Tree.depthMembers entries ≤ depth) {rest : List Char} :
    members fuel depth (compactMembers entries ++ '}' :: rest) = (entries, some rest) := by
  obtain ⟨fuel, rfl⟩ := Nat.exists_eq_add_one.2 (Nat.zero_lt_of_lt hfuel)
  match entries with
  | [] => exact absurd rfl hne
  | [(name, item)] =>
    simp only [compactMembers, List.length_append, List.length_cons] at hfuel
    obtain ⟨hitem, -⟩ := List.forall_mem_append.1 hleaves
    rw [compactMembers, List.append_assoc, List.cons_append]
    exact members_last name
      (value_compact item hitem (by omega) (Nat.max_le.1 hdepth).1 (by simp [Follows]))
  | (name, item) :: next :: more =>
    simp only [compactMembers_cons, List.length_append, List.length_cons] at hfuel
    obtain ⟨hitem, hmore⟩ := List.forall_mem_append.1 hleaves
    obtain ⟨hfirst, hnext⟩ := Nat.max_le.1 hdepth
    rw [compactMembers_cons, List.append_assoc, List.cons_append, List.append_assoc,
      List.cons_append,
      members_more name (value_compact item hitem (by omega) hfirst (by simp [Follows])),
      members_compact (next :: more) (List.cons_ne_nil _ _) hmore (by omega) hnext]

end

end Json.Reader

/-- **The text of a tree is read as that tree.** -/
theorem Json.read_compact {t : Tree} (hvalued : t.Valued)
    (hfloats : ∀ x, Tree.number (.float x) ∈ t.leaves → x.ReadsBack)
    (hdepth : t.depth ≤ Reader.depthLimit) : read (compact t) = ⟨t, true⟩ := by
  have hleaves : ∀ leaf ∈ t.leaves, Reader.Legible leaf := fun leaf hleaf =>
    ⟨hvalued leaf hleaf, fun x hx => hfloats x (hx ▸ hleaf)⟩
  have hvalue := Reader.value_compact t hleaves (Nat.lt_add_of_pos_right (Nat.zero_lt_two))
    hdepth follows_nil
  rw [List.append_nil] at hvalue
  simp only [read, compact, String.toList_ofList, hvalue]
  rfl

/-! ### What is read of any text -/

namespace Json.Reader

/-- What reading has to keep about the trees it finds. -/
structure Bounded (fuel : Nat) : Prop where
  value : ∀ depth text, (value fuel depth text).1.Fits depth
  firstItem : ∀ depth text, ∀ item ∈ (firstItem fuel depth text).1, item.Fits depth
  items : ∀ depth text, ∀ item ∈ (items fuel depth text).1, item.Fits depth
  firstMember : ∀ depth text, ∀ m ∈ (firstMember fuel depth text).1, m.2.Fits depth
  members : ∀ depth text, ∀ m ∈ (members fuel depth text).1, m.2.Fits depth

theorem fits_capped {depth : Nat} {found : Tree × Rest}
    (h : ∀ m, depth = m + 1 → found.1.Fits depth) : (capped depth found).1.Fits depth := by
  obtain ⟨tree, _ | left⟩ := found
  all_goals
    cases depth with
    | zero => simp [capped]
    | succ m => exact h m rfl

theorem bounded (fuel : Nat) : Bounded fuel := by
  induction fuel with
  | zero =>
    refine ⟨?_, ?_, ?_, ?_, ?_⟩ <;> intro depth text
    · simp [Reader.value]
    · simp [Reader.firstItem]
    · simp [Reader.items]
    · simp [Reader.firstMember]
    · simp [Reader.members]
  | succ fuel ih =>
    refine ⟨?_, ?_, ?_, ?_, ?_⟩ <;> intro depth text
    · rw [Reader.value]
      split
      case h_1 => simp
      case h_2 left _ =>
        refine fits_capped fun m hm => ?_
        subst hm
        exact .object (ih.firstMember m left)
      case h_3 left _ =>
        refine fits_capped fun m hm => ?_
        subst hm
        exact .array (ih.firstItem m left)
      case h_4 => split <;> simp
      case h_5 =>
        split
        · split
          · simp
          · rename_i l left _
            cases Number.ofLiteral? l <;> simp
        · split <;> simp
    · rw [Reader.firstItem]
      split
      · simp
      · exact ih.items depth _
    · have hitem := ih.value depth text
      rw [Reader.items]
      split
      case h_1 heq => simpa [heq] using hitem
      case h_2 left heq =>
        rw [heq] at hitem
        split
        · simpa using hitem
        · rename_i rest _
          exact List.forall_mem_cons.2 ⟨hitem, ih.items depth rest⟩
        · simpa using hitem
    · rw [Reader.firstMember]
      split
      · simp
      · exact ih.members depth _
    · rw [Reader.members]
      split
      case h_2 => simp
      case h_1 =>
        split
        case h_2 => simp
        case h_1 key _ _ =>
          split
          case h_2 => simp
          case h_1 text _ =>
            have hitem := ih.value depth text
            split
            case h_1 heq => simpa [heq] using hitem
            case h_2 heq =>
              rw [heq] at hitem
              split
              · simpa using hitem
              · rename_i rest _
                exact List.forall_mem_cons.2 ⟨hitem, ih.members depth rest⟩
              · simpa using hitem

end Json.Reader

/-- A tree that is read from a text is nested at most 127 levels deep. -/
theorem Json.fits_read (text : String) : (read text).tree.Fits Reader.depthLimit := by
  have hvalue := (Reader.bounded (2 * text.toList.length + 2)).value Reader.depthLimit text.toList
  unfold read
  dsimp only
  split <;> rename_i heq <;> exact (congrArg Prod.fst heq).subst hvalue

end Flowgraph
