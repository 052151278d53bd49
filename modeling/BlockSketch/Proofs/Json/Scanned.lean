import BlockSketch.Json.Printer
import BlockSketch.Json.Token

/-!
The words of a printed value. Both layouts write the same words (`words`), and
the scanner finds them again. Nearly everything that is printed ends where it
ends, so that what follows can be scanned as if nothing had been before it
(`Prints`); a number alone goes on until something comes that is no part of a
number (`Writes`). Only whole numbers are considered here. The layouts are put
together from pieces of the two sorts.
-/

namespace BlockSketch.Json

/-! ### Words -/

mutual

def words : Json → List Token
  | .null => [.null]
  | .bool b => [.bool b]
  | .number n => [.number (some n)]
  | .string s => [.string (some s)]
  | .array items => .openArray :: itemWords true items
  | .object members => .openObject :: memberWords true members

def itemWords (first : Bool) : List Json → List Token
  | [] => [.closeArray]
  | item :: rest => (if first then [] else [.comma]) ++ words item ++ itemWords false rest

def memberWords (first : Bool) : List (String × Json) → List Token
  | [] => [.closeObject]
  | (name, value) :: rest =>
    (if first then [] else [.comma]) ++ [.string (some name)] ++ .colon :: words value ++
      memberWords false rest

end

mutual

def Whole : Json → Prop
  | .number (.real _) => False
  | .array items => WholeItems items
  | .object members => WholeMembers members
  | _ => True

def WholeItems : List Json → Prop
  | [] => True
  | item :: rest => item.Whole ∧ WholeItems rest

def WholeMembers : List (String × Json) → Prop
  | [] => True
  | (_, value) :: rest => value.Whole ∧ WholeMembers rest

end

namespace Scanner

theorem run?_cons (s : Scanner) (c : Char) (cs : List Char) :
    s.run? (c :: cs) = (s.step? c).bind fun s => s.run? cs :=
  List.foldlM_cons ..

/-- The words of a text, after those that have been found already. -/
def read? (before : List Token) (cs : List Char) : Option (List Token) :=
  ((⟨before, .between⟩ : Scanner).run? cs).bind finish?

/-- The text has these words, whatever follows it. -/
def Prints (cs : List Char) (found : List Token) : Prop :=
  ∀ before rest, read? before (cs ++ rest) = read? (found.reverse ++ before) rest

/-- A number can end where this begins. -/
def Ends (rest : List Char) : Prop :=
  ∀ c ∈ rest.head?, Text.digit? c = none ∧ c ≠ '.' ∧ c ≠ 'e' ∧ c ≠ 'E'

/-- The text has these words, if a number can end behind it. -/
def Writes (cs : List Char) (found : List Token) : Prop :=
  ∀ before rest, Ends rest → read? before (cs ++ rest) = read? (found.reverse ++ before) rest

variable {cs ds : List Char} {found more : List Token} {before : List Token} {units : List Nat}

theorem Prints.writes (h : Prints cs found) : Writes cs found :=
  fun before rest _ => h before rest

theorem prints_nil : Prints [] [] :=
  fun _ _ => rfl

theorem Prints.append (h : Prints cs found) (h' : Prints ds more) :
    Prints (cs ++ ds) (found ++ more) := by
  intro before rest
  rw [List.append_assoc, h, h', List.reverse_append, List.append_assoc]

theorem Prints.append_writes (h : Prints cs found) (h' : Writes ds more) :
    Writes (cs ++ ds) (found ++ more) := by
  intro before rest hrest
  rw [List.append_assoc, h, h' _ _ hrest, List.reverse_append, List.append_assoc]

/-- A piece behind which a number can end. -/
theorem Writes.append (h : Writes cs found) (hd : ∀ rest, Ends (ds ++ rest))
    (h' : Prints ds more) : Prints (cs ++ ds) (found ++ more) := by
  intro before rest
  rw [List.append_assoc, h _ _ (hd rest), h', List.reverse_append, List.append_assoc]

/-! ### Marks, blanks and names -/

theorem prints_openArray : Prints ['['] [.openArray] := fun _ _ => rfl
theorem prints_closeArray : Prints [']'] [.closeArray] := fun _ _ => rfl
theorem prints_openObject : Prints ['\x7b'] [.openObject] := fun _ _ => rfl
theorem prints_closeObject : Prints ['\x7d'] [.closeObject] := fun _ _ => rfl
theorem prints_comma : Prints [','] [.comma] := fun _ _ => rfl
theorem prints_colon : Prints [':'] [.colon] := fun _ _ => rfl
theorem prints_blank : Prints [' '] [] := fun _ _ => rfl
theorem prints_newline : Prints ['\n'] [] := fun _ _ => rfl
theorem prints_null : Prints ['n', 'u', 'l', 'l'] [.null] := fun _ _ => rfl
theorem prints_true : Prints ['t', 'r', 'u', 'e'] [.bool true] := fun _ _ => rfl
theorem prints_false : Prints ['f', 'a', 'l', 's', 'e'] [.bool false] := fun _ _ => rfl

theorem prints_lineBreak (level : Nat) : Prints (lineBreak level) [] := by
  have hblanks : ∀ n, Prints (List.replicate n ' ') [] := by
    intro n
    induction n with
    | zero => exact prints_nil
    | succ n ih => exact prints_blank.append ih
  exact prints_newline.append (hblanks _)

theorem ends_of_head {c : Char} (h : Text.digit? c = none ∧ c ≠ '.' ∧ c ≠ 'e' ∧ c ≠ 'E')
    (rest : List Char) : Ends (c :: rest) := by
  intro d hd
  obtain rfl := Option.some_inj.1 hd
  exact h

/-! ### Strings -/

theorem hexDigit?_hexDigit : ∀ n < 16, Text.hexDigit? (hexDigit n) = some n := by
  decide

/-- One character of a string is one unit, however it is written. -/
theorem run?_escapedChar (c : Char) (rest : List Char) :
    run? ⟨before, .text units⟩ (escapedChar c ++ rest) =
      run? ⟨before, .text (c.toNat :: units)⟩ rest := by
  fun_cases escapedChar c
  case case8 hquote hbackslash _ _ _ _ _ hcontrol =>
    have hstart : run? ⟨before, .text units⟩
        (['\\', 'u', '0', '0', hexDigit (c.toNat / 16), hexDigit (c.toNat % 16)] ++ rest) =
        run? ⟨before, .code units 2 0⟩
          (hexDigit (c.toNat / 16) :: hexDigit (c.toNat % 16) :: rest) := rfl
    have hhigh : step? ⟨before, .code units 2 0⟩ (hexDigit (c.toNat / 16)) =
        some ⟨before, .code units 1 (c.toNat / 16)⟩ := by
      simp [step?, hexDigit?_hexDigit (c.toNat / 16) (by omega)]
    have hlow : step? ⟨before, .code units 1 (c.toNat / 16)⟩ (hexDigit (c.toNat % 16)) =
        some ⟨before, .text (c.toNat :: units)⟩ := by
      have hvalue : c.toNat / 16 * 16 + c.toNat % 16 = c.toNat := Nat.div_add_mod' ..
      simp [step?, hexDigit?_hexDigit (c.toNat % 16) (by omega), hvalue]
    rw [hstart, run?_cons, hhigh, Option.bind_some, run?_cons, hlow, Option.bind_some]
  case case9 hquote hbackslash _ _ _ _ _ hcontrol =>
    have hquote : c ≠ '"' := hquote
    have hbackslash : c ≠ '\\' := hbackslash
    rw [List.singleton_append, run?_cons, step?]
    simp only [if_neg hquote, if_neg hbackslash, if_neg hcontrol]
    rfl
  all_goals rfl

theorem run?_escaped (cs rest : List Char) (units : List Nat) :
    run? ⟨before, .text units⟩ (cs.flatMap escapedChar ++ rest) =
      run? ⟨before, .text ((cs.map Char.toNat).reverse ++ units)⟩ rest := by
  induction cs generalizing units with
  | nil => rfl
  | cons c cs ih =>
    rw [List.flatMap_cons, List.append_assoc, run?_escapedChar, ih, List.map_cons,
      List.reverse_cons, List.append_assoc]
    rfl

/-- No character is half of a pair of surrogates. -/
theorem charsOfUnits?_toNat (cs : List Char) : charsOfUnits? (cs.map Char.toNat) = some cs := by
  induction cs with
  | nil => rfl
  | cons c cs ih =>
    have hvalid : c.toNat < 0xD800 ∨ 0xDFFF < c.toNat := by
      have := c.valid
      simp only [UInt32.isValidChar, Nat.isValidChar] at this
      have htoNat : c.toNat = c.val.toNat := rfl
      omega
    have hlow : ¬ (0xD800 ≤ c.toNat ∧ c.toNat < 0xDC00) := by omega
    have hhigh : ¬ (0xDC00 ≤ c.toNat ∧ c.toNat < 0xE000) := by omega
    rw [List.map_cons, charsOfUnits?.eq_def]
    simp [hlow, hhigh, ih]

theorem prints_quotedString (s : String) : Prints (quotedString s) [.string (some s)] := by
  intro before rest
  have hopen : read? before (quotedString s ++ rest) =
      ((run? ⟨before, .text []⟩ (s.toList.flatMap escapedChar ++ ('"' :: rest))).bind finish?) := by
    have hlist : quotedString s ++ rest =
        '"' :: (s.toList.flatMap escapedChar ++ ('"' :: rest)) := by
      simp [quotedString]
    rw [hlist]
    rfl
  have hclose : step? ⟨before, .text ((s.toList.map Char.toNat).reverse ++ [])⟩ '"' =
      some ⟨.string (some s) :: before, .between⟩ := by
    simp [step?, push, charsOfUnits?_toNat]
  rw [hopen, run?_escaped, run?_cons, hclose]
  rfl

/-! ### Whole numbers -/

def numeralOf (negative : Bool) (m : Nat) : Numeral :=
  { Numeral.start with
    part := if m = 0 then .zero else .whole
    negative := negative
    digits := m }

theorem digit?_digitChar : ∀ d < 10, Text.digit? (Nat.digitChar d) = some d := by
  decide

theorem addWhole_of_lt {n : Numeral} {d : Nat} (hfull : n.full = false)
    (h : n.digits * 10 + d < UInt64.size) :
    n.addWhole d = { n with part := .whole, digits := n.digits * 10 + d } := by
  refine if_pos ?_
  rw [hfull, decide_eq_true h]
  rfl

theorem foldlM_toDigits (negative : Bool) {m : Nat} (hm : m < UInt64.size) :
    (Nat.toDigits 10 m).foldlM Numeral.next? { Numeral.start with negative := negative } =
      some (numeralOf negative m) := by
  induction m using Nat.strongRecOn with
  | ind m ih =>
    -- All digits but the last one are read first, as the number that they write.
    by_cases hsmall : m < 10
    · rw [Nat.toDigits_of_lt_base hsmall, List.foldlM_cons]
      show (Numeral.next? _ _).bind _ = _
      simp only [Numeral.next?, Numeral.start, digit?_digitChar m hsmall]
      cases m with
      | zero => rfl
      | succ k =>
        let n : Numeral := { Numeral.start with negative := negative }
        have hkeep : n.digits * 10 + (k + 1) < UInt64.size := by
          show 0 * 10 + (k + 1) < UInt64.size
          omega
        have hadd := addWhole_of_lt (n := n) rfl hkeep
        show (some (n.addWhole (k + 1))).bind _ = _
        rw [hadd]
        simp [n, numeralOf, Numeral.start]
    · have hdigit : m % 10 < 10 := Nat.mod_lt _ (by decide)
      have hvalue : m / 10 * 10 + m % 10 = m := Nat.div_add_mod' ..
      have hpositive : m / 10 ≠ 0 := by omega
      have hne : m ≠ 0 := by omega
      rw [Nat.toDigits_of_base_le (by decide) (by omega), List.foldlM_append,
        ih (m / 10) (by omega) (by omega)]
      show List.foldlM _ (numeralOf negative (m / 10)) _ = _
      rw [List.foldlM_cons]
      show (Numeral.next? _ _).bind _ = _
      have hkeep : (numeralOf negative (m / 10)).digits * 10 + m % 10 < UInt64.size := by
        show m / 10 * 10 + m % 10 < UInt64.size
        omega
      have hpart : (numeralOf negative (m / 10)).part = .whole := if_neg hpositive
      have hadd := addWhole_of_lt (n := numeralOf negative (m / 10)) rfl hkeep
      rw [Numeral.next?, hpart, digit?_digitChar _ hdigit]
      show (some (Numeral.addWhole _ _)).bind _ = _
      rw [hadd]
      simp [numeralOf, Numeral.start, hvalue, hne]

theorem run?_numeral {n n' : Numeral} (h : cs.foldlM Numeral.next? n = some n')
    (rest : List Char) :
    run? ⟨before, .numeral n⟩ (cs ++ rest) = run? ⟨before, .numeral n'⟩ rest := by
  induction cs generalizing n with
  | nil =>
    obtain rfl := Option.some_inj.1 h
    rfl
  | cons c cs ih =>
    rw [List.foldlM_cons] at h
    obtain ⟨n₁, hn₁, h⟩ := Option.bind_eq_some_iff.1 h
    have hstep : step? ⟨before, .numeral n⟩ c = some ⟨before, .numeral n₁⟩ := by
      simp only [step?, hn₁]
    rw [List.cons_append, run?_cons, hstep]
    exact ih h

/-- A digit begins a number. -/
theorem step?_digit {c : Char} {n : Numeral} (h : Numeral.start.next? c = some n) :
    step? ⟨before, .between⟩ c = some ⟨before, .numeral n⟩ := by
  have hspace : isSpace c = false := by
    cases hc : isSpace c with
    | false => rfl
    | true =>
      simp only [isSpace, Bool.or_eq_true, beq_iff_eq] at hc
      rcases hc with ((rfl | rfl) | rfl) | rfl <;> cases h
  show begin? _ c = _
  unfold begin?
  rw [hspace, if_neg Bool.false_ne_true]
  split
  case h_12 => rw [h]; rfl
  all_goals cases h

/-- A whole number has ended where nothing follows that could belong to it. -/
theorem read?_numeral {n : Numeral} (hn : n.part = .zero ∨ n.part = .whole) {rest : List Char}
    (hrest : Ends rest) :
    (run? ⟨before, .numeral n⟩ rest).bind finish? = read? (.number n.value? :: before) rest := by
  have hend : n.part.isEnd = true := by
    rcases hn with h | h <;> rw [h] <;> rfl
  cases rest with
  | nil =>
    show (if n.part.isEnd then _ else _) = _
    rw [if_pos hend]
    rfl
  | cons c rest =>
    obtain ⟨hdigit, hpoint, he, hE⟩ := hrest c rfl
    have hnone : n.next? c = none := by
      rcases hn with h | h <;> simp [Numeral.next?, h, hdigit, hpoint, he, hE]
    have hstep : step? ⟨before, .numeral n⟩ c =
        step? ⟨.number n.value? :: before, .between⟩ c := by
      simp only [step?, hnone, hend]
      rfl
    rw [read?, run?_cons, run?_cons, hstep]

theorem numeralOf_part (negative : Bool) (m : Nat) :
    (numeralOf negative m).part = .zero ∨ (numeralOf negative m).part = .whole := by
  by_cases h : m = 0
  · exact .inl (if_pos h)
  · exact .inr (if_neg h)

/-- The digits of a whole number, without a sign. -/
theorem writes_toDigits {m : Nat} (hm : m < UInt64.size) :
    Writes (Nat.toDigits 10 m) [.number (numeralOf false m).value?] := by
  intro before rest hrest
  have hfold := foldlM_toDigits false hm
  have hstart : ({ Numeral.start with negative := false } : Numeral) = Numeral.start := rfl
  rw [hstart] at hfold
  cases hdigits : Nat.toDigits 10 m with
  | nil => exact absurd hdigits Nat.toDigits_ne_nil
  | cons c cs =>
    rw [hdigits, List.foldlM_cons] at hfold
    obtain ⟨n, hn, hfold⟩ := Option.bind_eq_some_iff.1 hfold
    rw [List.cons_append, read?, run?_cons, step?_digit hn, Option.bind_some,
      run?_numeral hfold, read?_numeral (numeralOf_part false m) hrest]
    rfl

/-- The digits of a whole number behind a minus. -/
theorem writes_minus {m : Nat} (hm : m < UInt64.size) :
    Writes ('-' :: Nat.toDigits 10 m) [.number (numeralOf true m).value?] := by
  intro before rest hrest
  have hminus : step? ⟨before, .between⟩ '-' =
      some ⟨before, .numeral { Numeral.start with negative := true }⟩ := rfl
  rw [List.cons_append, read?, run?_cons, hminus, Option.bind_some,
    run?_numeral (foldlM_toDigits true hm), read?_numeral (numeralOf_part true m) hrest]
  rfl

theorem writes_number {n : Number} (h : (Json.number n).Whole) :
    Writes n.text.toList [.number (some n)] := by
  cases n with
  | real d => exact h.elim
  | nonneg n =>
    have hvalue : (numeralOf false n.toNat).value? = some (.nonneg n) := by
      have hnat : Number.ofNat? n.toNat = some (.nonneg (UInt64.ofNat n.toNat)) :=
        if_pos n.toNat_lt
      simp [Numeral.value?, numeralOf, Numeral.start, hnat]
    have htext : (Number.nonneg n).text.toList = Nat.toDigits 10 n.toNat := by
      simp [Number.text]
    rw [htext, ← hvalue]
    exact writes_toDigits n.toNat_lt
  | negSucc n =>
    have hvalue : (numeralOf true (n.val + 1)).value? = some (.negSucc n) := by
      have hnat : Number.ofNegative? (n.val + 1) = some (.negSucc ⟨n.val, n.isLt⟩) :=
        dif_pos n.isLt
      simp [Numeral.value?, numeralOf, Numeral.start, hnat]
    have htext : (Number.negSucc n).text.toList = '-' :: Nat.toDigits 10 (n.val + 1) := by
      simp [Number.text]
    rw [htext, ← hvalue]
    exact writes_minus (Nat.lt_of_le_of_lt n.isLt (by decide))

/-! ### The compact layout -/

theorem prints_separator (first : Bool) :
    Prints (if first then [] else [',']) (if first then [] else [.comma]) := by
  cases first
  · exact prints_comma
  · exact prints_nil

theorem ends_comma (rest : List Char) : Ends (',' :: rest) :=
  ends_of_head (by decide) rest

theorem ends_lineBreak (level : Nat) (rest : List Char) : Ends (lineBreak level ++ rest) :=
  ends_of_head (by decide) _

theorem ends_compactItems (items : List Json) (rest : List Char) :
    Ends (compactItems false items ++ rest) := by
  cases items with
  | nil => exact ends_of_head (by decide) _
  | cons item more => exact ends_comma _

theorem ends_compactMembers (members : List (String × Json)) (rest : List Char) :
    Ends (compactMembers false members ++ rest) := by
  cases members with
  | nil => exact ends_of_head (by decide) _
  | cons m more => exact ends_comma _

mutual

theorem writes_compactText : ∀ {value : Json}, value.Whole → Writes (compactText value) (words value)
  | .null, _ => prints_null.writes
  | .bool true, _ => prints_true.writes
  | .bool false, _ => prints_false.writes
  | .number _, h => writes_number h
  | .string s, _ => (prints_quotedString s).writes
  | .array _, h => (prints_openArray.append (prints_compactItems true h)).writes
  | .object _, h => (prints_openObject.append (prints_compactMembers true h)).writes

theorem prints_compactItems (first : Bool) : ∀ {items : List Json}, WholeItems items →
    Prints (compactItems first items) (itemWords first items)
  | [], _ => prints_closeArray
  | item :: rest, ⟨hitem, hrest⟩ => by
    have hfirst := (prints_separator first).append_writes (writes_compactText hitem)
    rw [compactItems, itemWords]
    exact hfirst.append (ends_compactItems rest) (prints_compactItems false hrest)

theorem prints_compactMembers (first : Bool) : ∀ {members : List (String × Json)},
    WholeMembers members → Prints (compactMembers first members) (memberWords first members)
  | [], _ => prints_closeObject
  | (name, value) :: rest, ⟨hvalue, hrest⟩ => by
    have hname := (prints_separator first).append (prints_quotedString name)
    have hfirst := hname.append_writes (prints_colon.append_writes (writes_compactText hvalue))
    rw [compactMembers, memberWords]
    exact hfirst.append (ends_compactMembers rest) (prints_compactMembers false hrest)

end

/-! ### The indented layout -/

/-- Blanks add no words. -/
theorem Prints.blank (h : Prints cs found) (h' : Prints ds []) : Prints (cs ++ ds) found := by
  have := h.append h'
  rwa [List.append_nil] at this

theorem ends_prettyItems (level : Nat) (items : List Json) (rest : List Char) :
    Ends (prettyItems level false items ++ rest) := by
  cases items with
  | nil =>
    rw [prettyItems, List.append_assoc]
    exact ends_lineBreak level _
  | cons item more => exact ends_comma _

theorem ends_prettyMembers (level : Nat) (members : List (String × Json)) (rest : List Char) :
    Ends (prettyMembers level false members ++ rest) := by
  cases members with
  | nil =>
    rw [prettyMembers, List.append_assoc]
    exact ends_lineBreak level _
  | cons m more => exact ends_comma _

mutual

theorem writes_prettyText (level : Nat) : ∀ {value : Json}, value.Whole →
    Writes (prettyText level value) (words value)
  | .null, _ => prints_null.writes
  | .bool true, _ => prints_true.writes
  | .bool false, _ => prints_false.writes
  | .number _, h => writes_number h
  | .string s, _ => (prints_quotedString s).writes
  | .array [], _ => (prints_openArray.append prints_closeArray).writes
  | .array (_ :: _), h => (prints_openArray.append (prints_prettyItems level true h)).writes
  | .object [], _ => (prints_openObject.append prints_closeObject).writes
  | .object (_ :: _), h => (prints_openObject.append (prints_prettyMembers level true h)).writes

theorem prints_prettyItems (level : Nat) (first : Bool) : ∀ {items : List Json},
    WholeItems items → Prints (prettyItems level first items) (itemWords first items)
  | [], _ => (prints_lineBreak level).append prints_closeArray
  | item :: rest, ⟨hitem, hrest⟩ => by
    have hline := (prints_separator first).blank (prints_lineBreak (level + 1))
    have hfirst := hline.append_writes (writes_prettyText (level + 1) hitem)
    rw [prettyItems, itemWords]
    exact hfirst.append (ends_prettyItems level rest) (prints_prettyItems level false hrest)

theorem prints_prettyMembers (level : Nat) (first : Bool) :
    ∀ {members : List (String × Json)}, WholeMembers members →
      Prints (prettyMembers level first members) (memberWords first members)
  | [], _ => (prints_lineBreak level).append prints_closeObject
  | (name, value) :: rest, ⟨hvalue, hrest⟩ => by
    have hline := (prints_separator first).blank (prints_lineBreak (level + 1))
    have hname := hline.append (prints_quotedString name)
    have hcolon := prints_colon.blank prints_blank
    have hfirst := hname.append_writes
      (hcolon.append_writes (writes_prettyText (level + 1) hvalue))
    rw [prettyMembers, memberWords]
    exact hfirst.append (ends_prettyMembers level rest) (prints_prettyMembers level false hrest)

end

theorem Writes.tokens? (h : Writes cs found) : tokens? cs = some found := by
  have hall := h [] [] (by intro c hc; cases hc)
  rw [List.append_nil, List.append_nil] at hall
  have hstart : Json.tokens? cs = read? [] cs := by
    simp only [Json.tokens?, read?, Scanner.start]
    rfl
  rw [hstart, hall]
  show some found.reverse.reverse = _
  rw [List.reverse_reverse]

end Scanner

/-- Both layouts have the words of the value. -/
theorem tokens?_compactText {value : Json} (h : value.Whole) :
    tokens? (compactText value) = some (words value) :=
  (Scanner.writes_compactText h).tokens?

theorem tokens?_prettyText {value : Json} (h : value.Whole) :
    tokens? (prettyText 0 value) = some (words value) :=
  (Scanner.writes_prettyText 0 h).tokens?

end BlockSketch.Json
