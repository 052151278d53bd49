import BlockSketch.Proofs.Sketch.Grammar
import BlockSketch.Proofs.Sketch.Printer
import BlockSketch.Proofs.Typing.Taken

/-!
Expressions of builtin blocks read back. The code of an expression is read to its end
and is the tree of its blocks: the same operators with the same operands on the same
sides, however deep comparisons are nested, and a zero where nothing is plugged in.

What makes this so is that an operand is never looser than a comparison asks for:
either its order says that it holds together by itself, or there are parentheses
around it (`Worded.operand`). So in the code of a comparison both operands are on the
tightest level of the grammar, whatever they are made of.
-/

namespace BlockSketch

/-! ### What a block is -/

def FieldValue.text? : FieldValue → Option String
  | .text s => some s
  | .number _ => none

namespace Sketch

/-- The expression that a block of some kind is, by its fields and its operands. -/
def Expression.ofParts? (kind : String) (fields : Entries FieldValue)
    (left right : Option Expression) : Option Expression :=
  match kind with
  | "number" => ((fields.get? "NUM").bind FieldValue.number?).map .number
  | "text" => ((fields.get? "TEXT").bind FieldValue.text?).map .text
  | "digital_read" => ((fields.get? "PIN").bind FieldValue.text?).map (.reading .digital)
  | "analog_read" => ((fields.get? "PIN").bind FieldValue.text?).map (.reading .analog)
  | "compare" => do
    let operator ← ((fields.get? "OP").bind FieldValue.text?).bind Operator.ofText?
    return .comparison operator (← left) (← right)
  | _ => none

end Sketch

namespace StoredBlock

open Sketch

mutual

/-- The expression that a block is, with everything plugged into it. -/
def expression? : StoredBlock → Option Expression
  | ⟨kind, fields, _, values⟩ =>
    Expression.ofParts? kind fields (operandIn? "A" values) (operandIn? "B" values)

/-- What is plugged into a slot, or a zero if nothing is. -/
def operandIn? (slot : String) : List (String × StoredBlock) → Option Expression
  | [] => some (.number 0)
  | (name, b) :: rest => if slot = name then b.expression? else operandIn? slot rest

end

theorem operandIn?_eq (slot : String) (values : List (String × StoredBlock)) :
    operandIn? slot values =
      match Entries.get? values slot with
      | none => some (.number 0)
      | some b => b.expression? := by
  induction values with
  | nil => rw [operandIn?]; rfl
  | cons entry rest ih =>
    rw [operandIn?, Entries.get?_cons, ih]
    by_cases h : slot = entry.1 <;> simp only [h, if_true, if_false]

end StoredBlock

namespace Sketch

open Token

/-! ### Pieces of a text -/

namespace Token

/-- The text has these tokens, whatever follows it. -/
def Prints (cs : List Char) (ts : List Token) : Prop :=
  ∀ rest, ofChars? (cs ++ rest) = (ofChars? rest).map (ts ++ ·)

def Ends (rest : List Char) : Prop :=
  ∀ c ∈ rest.head?, isWordChar c = false

theorem ends_cons {c : Char} (hc : isWordChar c = false) (rest : List Char) :
    Ends (c :: rest) := by
  rintro _ ⟨⟩
  exact hc

def Writes (cs : List Char) (ts : List Token) : Prop :=
  ∀ rest, Ends rest → ofChars? (cs ++ rest) = (ofChars? rest).map (ts ++ ·)

variable {cs ds rest : List Char} {ts us : List Token} {t : Token} {c : Char}

theorem Prints.writes (h : Prints cs ts) : Writes cs ts :=
  fun rest _ => h rest

theorem Prints.append (h : Prints cs ts) (h' : Prints ds us) : Prints (cs ++ ds) (ts ++ us) := by
  intro rest
  rw [List.append_assoc, h, h', Option.map_map]
  simp only [Function.comp_def, List.append_assoc]

theorem Prints.append_writes (h : Prints cs ts) (h' : Writes ds us) :
    Writes (cs ++ ds) (ts ++ us) := by
  intro rest hrest
  rw [List.append_assoc, h, h' rest hrest, Option.map_map]
  simp only [Function.comp_def, List.append_assoc]

/-- A piece behind which a word can end. -/
theorem Writes.append (h : Writes cs ts) (hd : ∀ rest, Ends (ds ++ rest)) (h' : Prints ds us) :
    Prints (cs ++ ds) (ts ++ us) := by
  intro rest
  rw [List.append_assoc, h _ (hd rest), h', Option.map_map]
  simp only [Function.comp_def, List.append_assoc]

theorem Writes.ofChars? (h : Writes cs ts) : ofChars? cs = some ts := by
  have hall := h [] nofun
  rwa [List.append_nil, Token.ofChars?, Option.map_some, List.append_nil] at hall

theorem ofChars?_of_first? (hc : isBlank c = false) (h : first? (c :: cs) = some (t, rest)) :
    ofChars? (c :: cs) = (ofChars? rest).map (t :: ·) := by
  rw [Token.ofChars?, if_neg (by simp [hc])]
  split
  next hnone => rw [h] at hnone; cases hnone
  next hsome => rw [h] at hsome; cases hsome; rfl

theorem prints_blank : Prints [' '] [] := by
  intro rest
  rw [List.singleton_append, Token.ofChars?, if_pos (by decide)]
  simp

theorem prints_opening : Prints ['('] [.opening] :=
  fun _ => ofChars?_of_first? rfl rfl

theorem prints_closing : Prints [')'] [.closing] :=
  fun _ => ofChars?_of_first? rfl rfl

/-- An operator with blanks around it. -/
theorem prints_operator (op : Operator) :
    Prints (" " ++ op.text ++ " ").toList [.operator op] := by
  have hbare : Prints (op.text.toList ++ [' ']) [.operator op] := by
    intro rest
    have hblank := prints_blank rest
    cases op <;> exact (ofChars?_of_first? rfl rfl).trans (by simp_all)
  simpa using prints_blank.append hbare

theorem prints_literal (s : String) : Prints (Text.literal s).toList [.literal s] := by
  intro rest
  have hread : first? ('"' :: (Text.literalBody s.toList ++ '"' :: rest)) =
      some (.literal s, rest) := by
    rw [first?, Text.readLiteralBody?_literalBody]
    simp
  simpa [Text.literal] using ofChars?_of_first? rfl hread

theorem first?_word (hc : isWordChar c = true) (rest : List Char) :
    first? (c :: rest) = some
      (.word (String.ofList (c :: rest.takeWhile isWordChar)), rest.dropWhile isWordChar) := by
  unfold first?
  split
  case h_10 heq =>
    cases heq
    rw [if_pos hc]
  all_goals
    rename_i heq
    cases heq
  all_goals exact absurd hc (by decide)

theorem writes_word {s : String} (hne : s.toList ≠ []) (h : ∀ c ∈ s.toList, isWordChar c = true) :
    Writes s.toList [.word s] := by
  intro rest hrest
  obtain ⟨c, cs, hs⟩ := List.exists_cons_of_ne_nil hne
  rw [hs, List.forall_mem_cons] at h
  obtain ⟨hc, hcs⟩ := h
  have hblank : isBlank c = false := by
    by_contra hb
    simp only [isBlank, Bool.or_eq_true, beq_iff_eq, Bool.not_eq_false, or_assoc] at hb
    rcases hb with rfl | rfl | rfl | rfl | rfl | rfl <;> exact absurd hc (by decide)
  have hend : rest.takeWhile isWordChar = [] ∧ rest.dropWhile isWordChar = rest := by
    cases rest with
    | nil => exact ⟨rfl, rfl⟩
    | cons d rest =>
      have hd : isWordChar d = false := hrest d rfl
      simp [hd]
  have hfirst := first?_word hc (cs ++ rest)
  rw [List.takeWhile_append_of_pos hcs, List.dropWhile_append_of_pos hcs, hend.1, hend.2,
    List.append_nil, ← hs, String.ofList_toList] at hfirst
  rw [hs, List.cons_append, ofChars?_of_first? hblank hfirst]
  rfl

end Token

/-! ### Numbers -/

theorem head?_toDigits {n : Nat} (hn : 0 < n) : (Nat.toDigits 10 n).head? ≠ some '0' := by
  have hdigit : ∀ d < 10, 0 < d → Nat.digitChar d ≠ '0' := by decide
  induction n using Nat.strongRecOn with
  | ind n ih =>
    by_cases hsmall : n < 10
    · rw [Nat.toDigits_of_lt_base hsmall, List.head?_cons, ne_eq, Option.some_inj]
      exact hdigit n hsmall hn
    · rw [Nat.toDigits_of_base_le (by decide) (by omega),
        List.head?_append_of_ne_nil _ Nat.toDigits_ne_nil]
      exact ih (n / 10) (by omega) (by omega)

theorem word?_toDigits (n : UInt64) : Text.word? (Nat.toDigits 10 n.toNat) = some n := by
  have hdigits : ∀ c ∈ Nat.toDigits 10 n.toNat, '0' ≤ c ∧ c ≤ '9' := by
    intro c hc
    have hdigit := Nat.isDigit_of_mem_toDigits (by decide) (by decide) hc
    simpa [Char.isDigit, Char.le_def] using hdigit
  have hread : Text.readDigits? 0 (Nat.toDigits 10 n.toNat) = some n.toNat :=
    Text.readDigits?_eq_some.2 ⟨hdigits, Nat.ofDigitChars_ten_toDigits.symm⟩
  have hnatural : Text.natural? (Nat.toDigits 10 n.toNat) = some n.toNat := by
    obtain ⟨c, cs, hcs⟩ := List.exists_cons_of_ne_nil (Nat.toDigits_ne_nil (n := n.toNat) (b := 10))
    rw [hcs] at hread ⊢
    exact hread
  have hlt : n.toNat < UInt64.size := n.toNat_lt
  simp only [Text.word?, hnatural, Option.bind_eq_bind, Option.bind_some, if_pos hlt,
    UInt64.ofNat_toNat]

theorem toList_numeral (n : UInt64) : (Library.numeral n).toList = Nat.toDigits 10 n.toNat := by
  rw [Library.numeral, Nat.toString_eq_ofList_toDigits, String.toList_ofList]

theorem decimal?_numeral (n : UInt64) : decimal? (Library.numeral n) = some n := by
  have hword := word?_toDigits n
  rw [decimal?, toList_numeral]
  split
  next hzero =>
    rw [hzero] at hword
    rw [← hword]
    decide
  next rest hne hzero =>
    rcases Nat.eq_zero_or_pos n.toNat with hn | hn
    · rw [hn, Nat.toDigits_zero] at hzero
      exact absurd (List.cons.inj hzero).2.symm hne
    · exact absurd (congrArg List.head? hzero) (head?_toDigits hn)
  next => exact hword

theorem writes_numeral (n : UInt64) :
    Writes (Library.numeral n).toList [.word (Library.numeral n)] := by
  apply writes_word
  · rw [toList_numeral]
    exact Nat.toDigits_ne_nil
  · intro c hc
    rw [toList_numeral] at hc
    have hdigit := Nat.isDigit_of_mem_toDigits (by decide) (by decide) hc
    simp [isWordChar, Char.isAlphanum, hdigit]

/-! ### Operands and comparisons -/

/-- The code is an expression of the tightest level. -/
def IsOperand (code : String) (e : Expression) : Prop :=
  ∃ ts, Writes code.toList ts ∧ Derives .primary ts e

/-- The code is an expression, of the level that its order stands for. -/
inductive Worded : Fragment → Expression → Prop
  | value {code : String} {order : Order} {ts : List Token} {e : Expression}
      (hwrites : Writes code.toList ts) (hderives : Derives .equality ts e)
      (hprimary : order.rank < Order.relational.rank → Derives .primary ts e) :
      Worded (.value code order) e

theorem IsOperand.worded {code : String} {e : Expression} (h : IsOperand code e) (order : Order) :
    Worded (.value code order) e := by
  obtain ⟨ts, hwrites, hderives⟩ := h
  exact .value hwrites (.ofRelational (.ofPrimary hderives)) fun _ => hderives

theorem lt_of_needsParens_eq_false {order : Order}
    (h : Order.relational.needsParens order = false) : order.rank < Order.relational.rank := by
  rw [Order.needsParens] at h
  split at h
  next hlt => exact hlt
  next => simp [Order.relational, Order.atomic, Order.none] at h

/-- In its slot an operand is on the tightest level, with parentheses or without. -/
theorem Worded.operand {fragment : Fragment} {e : Expression} (h : Worded fragment e)
    (slot : String) : IsOperand (inSlot (Library.operand slot) fragment) e := by
  obtain @⟨code, order, ts, e, hwrites, hderives, hprimary⟩ := h
  rw [inSlot]
  split
  next =>
    have hparentheses := prints_opening.append (hwrites.append (ends_cons rfl) prints_closing)
    refine ⟨_, Prints.writes ?_, .parenthesized hderives⟩
    simpa using hparentheses
  next hparens =>
    exact ⟨ts, hwrites, hprimary (lt_of_needsParens_eq_false (Bool.eq_false_iff.2 hparens))⟩

theorem isOperand_numeral (n : UInt64) : IsOperand (Library.numeral n) (.number n) :=
  ⟨_, writes_numeral n, .number (decimal?_numeral n)⟩

theorem isOperand_literal (s : String) : IsOperand (Text.literal s) (.text s) :=
  ⟨_, (prints_literal s).writes, .literal s⟩

def IsWord (s : String) : Prop :=
  s.toList ≠ [] ∧ s.toList.all isWordChar = true

theorem IsWord.writes {s : String} (h : IsWord s) : Writes s.toList [.word s] :=
  writes_word h.1 (List.all_eq_true.1 h.2)

theorem isOperand_call (reading : Reading) {pin : String} (hpin : IsWord pin) :
    IsOperand (Library.call reading.name [pin]) (.reading reading pin) := by
  have hname : IsWord reading.name := by
    cases reading <;> exact ⟨by decide, by decide⟩
  have hcall := (hname.writes.append (ends_cons rfl) prints_opening).append
    (hpin.writes.append (ends_cons rfl) prints_closing)
  refine ⟨_, Prints.writes ?_, .reading reading pin⟩
  simpa [Library.call] using hcall

/-- No comparison is as tight as an operand has to be. -/
theorem relational_le_comparisonOrder (op : Operator) :
    Order.relational.rank ≤ (Library.comparisonOrder op.text).rank := by
  cases op <;> decide

theorem worded_comparison {code code' : String} {a b : Expression} (op : Operator)
    (ha : IsOperand code a) (hb : IsOperand code' b) :
    Worded (.value (code ++ " " ++ op.text ++ " " ++ code') (Library.comparisonOrder op.text))
      (.comparison op a b) := by
  obtain ⟨ts, hwrites, ha⟩ := ha
  obtain ⟨us, hwrites', hb⟩ := hb
  have hends : ∀ rest, Ends ((" " ++ op.text ++ " ").toList ++ rest) := by
    intro rest
    rw [String.append_assoc, String.toList_append]
    exact ends_cons rfl _
  have hboth := (hwrites.append hends (prints_operator op)).append_writes hwrites'
  have hcode : (code ++ " " ++ op.text ++ " " ++ code').toList =
      code.toList ++ (" " ++ op.text ++ " ").toList ++ code'.toList := by
    simp
  have hloose : (Library.comparisonOrder op.text).rank < Order.relational.rank →
      Derives .primary (ts ++ [.operator op] ++ us) (.comparison op a b) :=
    fun hlt => absurd (relational_le_comparisonOrder op) (Nat.not_le_of_lt hlt)
  rw [← hcode] at hboth
  rw [List.append_assoc] at hboth hloose
  cases hop : op.isEquality with
  | true =>
    exact .value hboth (.equality (.ofRelational (.ofPrimary ha)) hop (.ofPrimary hb)) hloose
  | false =>
    exact .value hboth (.ofRelational (.size (.ofPrimary ha) hop hb)) hloose

end Sketch

/-! ### The builtin expressions -/

namespace Library

open Sketch

theorem isWord_pin {board : Board} (hboard : board ∈ Board.all) {pin : Pin}
    (hpin : pin ∈ board.pins) : IsWord pin.value := by
  have hall : ∀ board ∈ Board.all, ∀ pin ∈ board.pins,
      pin.value.toList ≠ [] ∧ pin.value.toList.all Token.isWordChar = true := by
    decide +kernel
  exact hall board hboard pin hpin

theorem exists_operator {option : FieldOption}
    (h : option ∈ comparisons.map fun o => (⟨o.1, o.2⟩ : FieldOption)) :
    ∃ op : Operator, op.text = option.value := by
  simp only [comparisons, List.map_cons, List.map_nil, List.mem_cons, List.not_mem_nil,
    or_false] at h
  rcases h with rfl | rfl | rfl | rfl | rfl | rfl
  · exact ⟨.equal, rfl⟩
  · exact ⟨.notEqual, rfl⟩
  · exact ⟨.less, rfl⟩
  · exact ⟨.atMost, rfl⟩
  · exact ⟨.greater, rfl⟩
  · exact ⟨.atLeast, rfl⟩

/-- Blocks of the type write the expression that their fields and operands are. -/
def Expresses (type : BlockType) (fields : Entries FieldValue) (operands : String → Expression) :
    Prop :=
  ∃ e, Expression.ofParts? type.kind fields (some (operands "A")) (some (operands "B")) = some e ∧
    ∀ ctx : Context, ctx.fields = fields →
      (∀ slot ∈ type.sockets.valueSlots, IsOperand (ctx.value slot.name) (operands slot.name)) →
        Worded (type.generator ctx) e

variable {fields : Entries FieldValue} (operands : String → Expression)

theorem number_expresses {n : UInt64} (h : fields.get? "NUM" = some (.number n)) :
    Expresses number fields operands := by
  refine ⟨.number n, ?_, ?_⟩
  · show ((fields.get? "NUM").bind FieldValue.number?).map Expression.number = _
    rw [h]
    rfl
  · rintro ctx rfl -
    show Worded (.value (numeral (ctx.number "NUM")) .atomic) _
    rw [Context.number, h]
    exact (isOperand_numeral n).worded _

theorem text_expresses {s : String} (h : fields.get? "TEXT" = some (.text s)) :
    Expresses text fields operands := by
  refine ⟨.text s, ?_, ?_⟩
  · show ((fields.get? "TEXT").bind FieldValue.text?).map Expression.text = _
    rw [h]
    rfl
  · rintro ctx rfl -
    show Worded (.value (Text.literal (ctx.field "TEXT")) .atomic) _
    rw [Context.field, h]
    exact (isOperand_literal s).worded _

theorem worded_call (reading : Reading) {pin : String} (hpin : IsWord pin) {ctx : Context}
    (h : ctx.fields.get? "PIN" = some (.text pin)) :
    Worded (.value (call reading.name [ctx.field "PIN"]) .unaryPostfix) (.reading reading pin) := by
  rw [Context.field, h]
  exact (isOperand_call reading hpin).worded _

theorem digitalRead_expresses {pin : String} (hpin : IsWord pin)
    (h : fields.get? "PIN" = some (.text pin)) : Expresses digitalRead fields operands := by
  refine ⟨.reading .digital pin, ?_, fun ctx hctx _ => worded_call .digital hpin (hctx ▸ h)⟩
  show ((fields.get? "PIN").bind FieldValue.text?).map (Expression.reading .digital) = _
  rw [h]
  rfl

theorem analogRead_expresses {pin : String} (hpin : IsWord pin)
    (h : fields.get? "PIN" = some (.text pin)) : Expresses analogRead fields operands := by
  refine ⟨.reading .analog pin, ?_, fun ctx hctx _ => worded_call .analog hpin (hctx ▸ h)⟩
  show ((fields.get? "PIN").bind FieldValue.text?).map (Expression.reading .analog) = _
  rw [h]
  rfl

theorem compare_expresses (op : Operator) (h : fields.get? "OP" = some (.text op.text)) :
    Expresses compare fields operands := by
  refine ⟨.comparison op (operands "A") (operands "B"), ?_, ?_⟩
  · show (((fields.get? "OP").bind FieldValue.text?).bind Operator.ofText?).bind _ = _
    rw [h]
    show (Operator.ofText? op.text).bind _ = _
    rw [Operator.ofText?_text]
    rfl
  · rintro ctx rfl hoperands
    have ha := hoperands (operand "A") (List.mem_cons_self ..)
    have hb := hoperands (operand "B") (List.mem_cons_of_mem _ (List.mem_singleton_self _))
    have hfield : ctx.field "OP" = op.text := by
      rw [Context.field, h]
      rfl
    show Worded (.value (ctx.value "A" ++ " " ++ ctx.field "OP" ++ " " ++ ctx.value "B")
      (comparisonOrder (ctx.field "OP"))) _
    rw [hfield]
    exact worded_comparison op ha hb

theorem expresses {type : BlockType} (htype : type ∈ types) (hvalue : type.category = .value)
    (hfields : ∀ spec ∈ type.fields, ∃ value, fields.get? spec.name = some value ∧
      spec.Holds value) : Expresses type fields operands := by
  simp only [types, List.mem_cons, List.not_mem_nil, or_false] at htype
  rcases htype with rfl | rfl | rfl | rfl | rfl | rfl | rfl | rfl | rfl | rfl | rfl | rfl | rfl |
    rfl | rfl <;> cases hvalue
  all_goals obtain ⟨_, hget, hholds⟩ := hfields _ (List.mem_singleton_self _)
  · obtain ⟨n, rfl⟩ := hholds
    exact number_expresses operands hget
  · obtain ⟨s, rfl⟩ := hholds
    exact text_expresses operands hget
  · obtain ⟨board, hboard, pin, hpin, rfl⟩ := hholds
    exact digitalRead_expresses operands (isWord_pin hboard hpin) hget
  · obtain ⟨board, hboard, pin, hpin, rfl⟩ := hholds
    exact analogRead_expresses operands (isWord_pin hboard hpin) hget
  · obtain ⟨option, hoption, rfl⟩ := hholds
    obtain ⟨op, hop⟩ := exists_operator hoption
    exact compare_expresses operands op (hop ▸ hget)

end Library

/-! ### Stored blocks -/

namespace StoredBlock

open Sketch

/-- The code of the block, at any depth, is that of the expression that it is. -/
def Worded (s : StoredBlock) : Prop :=
  ∃ e, s.expression? = some e ∧ ∀ depth, ∃ fragment,
    s.code? .builtin depth = some fragment ∧ Sketch.Worded fragment e

variable {s : StoredBlock} {type : BlockType}

/-- What stands in a slot for an operand is that operand. -/
theorem exists_operand (hvalues : ∀ slot b, (slot, b) ∈ s.values → b.Worded) (slot : String) :
    ∃ e, operandIn? slot s.values = some e ∧ ∀ depth, IsOperand
      ((((Entries.get? s.values slot).bind fun b => b.code? .builtin depth).map
        (inSlot (Library.operand slot))).getD "0") e := by
  rw [operandIn?_eq]
  cases hget : Entries.get? s.values slot with
  | none => exact ⟨_, rfl, fun _ => isOperand_numeral 0⟩
  | some b =>
    obtain ⟨e, he, hcode⟩ := hvalues slot b (Entries.mem_of_get? hget)
    refine ⟨e, he, fun depth => ?_⟩
    obtain ⟨fragment, hfragment, hworded⟩ := hcode depth
    rw [Option.bind_some, hfragment, Option.map_some, Option.getD_some]
    exact hworded.operand slot

theorem eq_operand : ∀ type ∈ Library.types, type.category = .value →
    ∀ slot ∈ type.sockets.valueSlots, slot = Library.operand slot.name := by
  decide +kernel

/-- What is seen of a slot is the code of what is plugged into it. -/
theorem value_sight (depth : Nat) (hget : Registry.builtin.get? s.kind = some type)
    {slot : ValueSlot} (hslot : slot ∈ type.sockets.valueSlots) :
    (sight depth s.kind s.fields s.values).value slot.name =
      (((Entries.get? s.values slot.name).bind fun b => b.code? .builtin depth).map
        (inSlot slot)).getD slot.empty := by
  have hdistinct := (Registry.slotsOnce_builtin hget).valueSlots
  have hseen : Entries.get? (sight depth s.kind s.fields s.values).values slot.name = some
      ((((Entries.get? s.values slot.name).bind fun b => b.code? .builtin depth).map
        (inSlot slot)).getD slot.empty) := by
    simp only [sight, hget]
    rw [Entries.get?_eq_some]
    · exact List.mem_map.2 ⟨slot, hslot, rfl⟩
    · rwa [Entries.Distinct, Entries.names_map]
  rw [Context.value, hseen, Option.getD_some]

/-- A block writes the expression that it is, if what is plugged into it does. -/
theorem worded_of_parts (hget : Registry.builtin.get? s.kind = some type)
    (hcategory : type.category = .value)
    (hfields : ∀ spec ∈ type.fields, ∃ value, Entries.get? s.fields spec.name = some value ∧
      spec.Holds value)
    (hstatements : s.statements = [])
    (hvalues : ∀ slot b, (slot, b) ∈ s.values → b.Worded) : s.Worded := by
  have htype : type ∈ Library.types := Registry.mem_of_get?_ofList hget
  choose operands hoperands hcodes using exists_operand hvalues
  obtain ⟨e, he, hworded⟩ := Library.expresses operands htype hcategory hfields
  have hexpression : s.expression? = some e := by
    obtain ⟨kind, fields, statements, values⟩ := s
    rw [expression?, hoperands, hoperands]
    rw [Registry.kind_of_get? hget] at he
    exact he
  refine ⟨e, hexpression, fun depth => ⟨_, code?_eq_generator depth s hget ?_ ?_, ?_⟩⟩
  · intro slot chain hmem
    rw [hstatements] at hmem
    cases hmem
  · intro slot b hmem
    obtain ⟨_, -, hb⟩ := hvalues slot b hmem
    obtain ⟨fragment, hfragment, -⟩ := hb depth
    exact ⟨fragment, hfragment⟩
  · refine hworded _ rfl fun slot hslot => ?_
    have hoperand := eq_operand type htype hcategory slot hslot
    have hempty : slot.empty = "0" := congrArg ValueSlot.empty hoperand
    have hcode := hcodes slot.name depth
    rw [← hoperand, ← hempty, ← value_sight depth hget hslot] at hcode
    exact hcode

end StoredBlock

/-! ### Programs -/

namespace Workspace

open Sketch

variable {w : Workspace}

/-- Every expression in a typed program writes what it is. -/
theorem Typed.worded (h : w.Typed) (hc : w.Coherent) (hreg : w.registry = .builtin) :
    ∀ x ∈ w.arena.ids, ∀ b type, w.arena.find? x = some b →
      Registry.builtin.get? b.kind = some type → type.category = .value →
        (w.arena.tree b).Worded := by
  have hfaithful := h.faithful hc (hreg ▸ Registry.regular_builtin.declaresOnce)
  have hslots : ∀ type ∈ Library.types, type.category = .value →
      type.sockets.statementSlots = [] := by
    decide +kernel
  refine hc.forest.link_induct fun x _ _ ih b type hb hget hcategory => ?_
  have hget' : w.registry.get? b.kind = some type := by rw [hreg, hget]
  obtain ⟨other, hother, hshapes, -⟩ := hfaithful.blocks b (Arena.mem_of_find? hb)
  obtain rfl := Option.some_inj.1 (hother.symm.trans hget')
  refine StoredBlock.worded_of_parts (by rwa [kind_tree hc hb]) hcategory ?_ ?_ ?_
  · rw [hc.forest.tree_eq hb]
    exact hshapes.holds
  · refine List.eq_nil_iff_forall_not_mem.2 fun ⟨slot, chain⟩ hmem => ?_
    obtain ⟨c, hk, -⟩ := (hc.forest.mem_statements hb).1 hmem
    have hslot : slot ∈ other.sockets.statementSlots := h.hasLink_of_linked hk hb hget'
    rw [hslots other (Registry.mem_of_get?_ofList hget) hcategory] at hslot
    cases hslot
  · intro slot s hmem
    obtain ⟨c, d, hk, hd, rfl⟩ := (hc.forest.mem_values hb).1 hmem
    obtain ⟨-, child, hchild, hplugs⟩ := h.plugs_of_linked hc hk hd
    rw [hreg] at hchild
    obtain ⟨hvalue, -⟩ : child.category = .value ∧ child.sockets.output = true := by
      simpa [BlockType.isPluggable] using hplugs
    exact ih _ c hk d child hd hchild hvalue

/-- In every program that can come about from the builtin blocks, the code of an
expression is read to its end and is the tree of its blocks, with a zero where
nothing is plugged in. -/
theorem reached_reads_back (h : Reached .builtin w) {b : Block} {type : BlockType}
    (hb : b ∈ w.arena) (ht : w.registry.get? b.kind = some type)
    (hvalue : type.category = .value) :
    ∃ e, (w.arena.tree b).expression? = some e ∧
      ∀ depth seen, (∀ x, w.arena.Reachable b.id x → x ∉ seen) → ∃ code order later,
        blockCode w.arena w.registry w.arena.walkBound b.id depth seen =
          .ok (.value code order, later) ∧ Expression.ofText? code = some e := by
  obtain ⟨hreg, hc, -⟩ := h.coherent hasRoots_builtin
  have htyped := h.typed hasRoots_builtin Registry.regular_builtin
  have hfind := Arena.find?_of_mem hc.numbered.nodup hb
  have hbound := Nat.le_of_succ_le (w.arena.rank_bound b.id)
  obtain ⟨e, he, hworded⟩ := htyped.worded hc hreg b.id (Arena.mem_ids_of_find? hfind) b type
    hfind (hreg ▸ ht) hvalue
  refine ⟨e, he, fun depth seen hseen => ?_⟩
  obtain ⟨fragment, hcode, hworded⟩ := hworded depth
  have hknown : ∀ b ∈ w.arena, ∃ type, Registry.builtin.get? b.kind = some type :=
    hreg ▸ h.grounded.2.known
  obtain ⟨_, hcode', hplain⟩ := (plain_eq_tree hc.forest Registry.slotsOnce_builtin
    Registry.ignoresNumbers_builtin hknown w.arena.walkBound).1 b.id
      (Arena.mem_ids_of_find? hfind) hbound b hfind depth
  obtain rfl := Option.some_inj.1 (hcode.symm.trans hcode')
  obtain ⟨later, -, hrun⟩ := (gives_plain hc.forest Registry.slotsOnce_builtin
    w.arena.walkBound).1 b.id (Arena.mem_ids_of_find? hfind) hbound depth seen
      fun y hy => hseen y (hc.forest.tidy.reachable_iff.2 hy.reach)
  obtain @⟨code, order, ts, e, hwrites, hderives, -⟩ := hworded
  refine ⟨code, order, later, ?_, Expression.ofText?_eq_some.2 ⟨_, hwrites.ofChars?, hderives⟩⟩
  rw [hreg, hrun, hplain]
  rfl

/-- A comparison of a comparison with a pin. The inner one has a text with marks of
the language in it on its left side, and nothing on its right. -/
theorem reached_reads_back_nested :
    let w := (onDefaultBoard .builtin).afterAll
      [.edit (.create "compare" .origin), .edit (.create "compare" .origin),
        .edit (.create "text" .origin), .edit (.create "digital_read" .origin),
        .edit (.setField ⟨3⟩ "OP" (.text "<")), .edit (.setField ⟨5⟩ "TEXT" (.text "\"(<\\")),
        .edit (.plug ⟨3⟩ "A" ⟨4⟩), .edit (.plug ⟨3⟩ "B" ⟨6⟩), .edit (.plug ⟨4⟩ "A" ⟨5⟩)]
    let e : Expression := .comparison .less (.comparison .equal (.text "\"(<\\") (.number 0))
      (.reading .digital "2")
    Reached .builtin w ∧ ∃ b ∈ w.arena, b.id = ⟨3⟩ ∧
      w.registry.get? b.kind = some Library.compare ∧ (w.arena.tree b).expression? = some e ∧
      ∃ code order later, blockCode w.arena w.registry w.arena.walkBound b.id 0 [] =
        .ok (.value code order, later) ∧ Expression.ofText? code = some e := by
  intro w e
  have hreached : Reached .builtin w := ⟨_, .onDefaultBoard, _, rfl⟩
  have hprogram : ∃ b, w.arena.find? ⟨3⟩ = some b ∧
      w.registry.get? b.kind = some Library.compare ∧ (w.arena.tree b).expression? = some e := by
    unfold w
    simp only [afterAll_cons, afterAll_nil]
    rw [after_plug_of_ok (connectValue_of_bare ⟨3⟩ "A" ⟨4⟩ rfl rfl (by decide) rfl rfl rfl rfl rfl
        (by decide)),
      after_plug_of_ok (connectValue_of_bare ⟨3⟩ "B" ⟨6⟩ rfl rfl (by decide) rfl rfl rfl rfl rfl
        (by decide)),
      after_plug_of_ok (connectValue_of_bare ⟨4⟩ "A" ⟨5⟩ rfl rfl (by decide) rfl rfl rfl rfl rfl
        (by decide))]
    exact ⟨_, rfl, rfl, rfl⟩
  obtain ⟨b, hfind, hget, he⟩ := hprogram
  have hb := Arena.mem_of_find? hfind
  obtain ⟨e', he', hread⟩ := reached_reads_back hreached hb hget rfl
  obtain rfl := Option.some_inj.1 (he'.symm.trans he)
  exact ⟨hreached, b, hb, Arena.id_of_find? hfind, hget, he, hread 0 [] fun _ _ => nofun⟩

end Workspace

end BlockSketch
