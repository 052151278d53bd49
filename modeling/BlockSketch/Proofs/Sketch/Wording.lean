import BlockSketch.Proofs.Sketch.Page
import BlockSketch.Proofs.Typing.Faithful

/-!
What stands on the lines of builtin blocks. A statement is one line, or a line
with a chain below it; an expression stands on the line of the statement around
it. Entries of choices, pins, numbers and literals have no line breaks, so
whatever is typed into a text, a line stays a line.
-/

namespace BlockSketch

/-! ### The lines of one block -/

namespace Library

/-- What stands on the line of a statement that is one line. -/
def sentence? (ctx : Context) : String → Option String
  | "pin_mode" => some (call "pinMode" [ctx.field "PIN", ctx.field "MODE"] ++ ";")
  | "digital_write" => some (call "digitalWrite" [ctx.field "PIN", ctx.field "STATE"] ++ ";")
  | "analog_write" => some (call "analogWrite" [ctx.field "PIN", ctx.value "VALUE"] ++ ";")
  | "delay_ms" => some (call "delay" [numeral (ctx.number "MS")] ++ ";")
  | "serial_begin" => some (call "Serial.begin" [ctx.field "BAUD"] ++ ";")
  | "serial_print" => some (call "Serial.println" [ctx.value "TEXT"] ++ ";")
  | _ => none

/-- What stands on the first line of a statement that holds a chain, before the
brace. -/
def header? (ctx : Context) : String → Option String
  | "repeat_times" =>
    let counter := ctx.loopVariable
    let limit := numeral (ctx.number "TIMES")
    some ("for (unsigned long " ++ counter ++ " = 0; " ++ counter ++ " < " ++ limit ++ "; " ++
      counter ++ "++)")
  | "if_then" => some ("if (" ++ ctx.value "CONDITION" ++ ")")
  | _ => none

def rootHeader : RootKind → String
  | .setup => "void setup()"
  | .loop => "void loop()"

end Library

/-! ### What stands in fields and slots -/

namespace Library

/-- The fields that stand in the code as they are. -/
def choices : List String := ["PIN", "MODE", "STATE", "BAUD", "OP"]

end Library

/-- What a generator can see of a block has no line breaks, apart from texts and
from the chains in it. -/
structure Context.Tame (ctx : Context) : Prop where
  field : ∀ name ∈ Library.choices, OneLine (ctx.field name)
  value : ∀ name, OneLine (ctx.value name)

def Context.withChains (ctx : Context) (chains : Entries String) : Context :=
  { ctx with statements := chains }

theorem Context.Tame.withChains {ctx : Context} (h : ctx.Tame) (chains : Entries String) :
    (ctx.withChains chains).Tame :=
  ⟨h.field, h.value⟩

@[simp] theorem Library.header?_withChains (ctx : Context) (chains : Entries String)
    (kind : String) : header? (ctx.withChains chains) kind = header? ctx kind := rfl

@[simp] theorem Library.sentence?_withChains (ctx : Context) (chains : Entries String)
    (kind : String) : sentence? (ctx.withChains chains) kind = sentence? ctx kind := rfl

/-- A choice of entries without line breaks, or of pins. -/
def FieldSpec.isTame (spec : FieldSpec) : Bool :=
  match spec.kind with
  | .dropdown (.fixed options) => options.all fun option => OneLine option.value
  | .dropdown (.onBoard _) => true
  | .number _ | .text _ => false

theorem oneLine_of_isPin {value : String} (h : Board.isPinOfAny value = true) :
    OneLine value := by
  have hpins : ∀ board ∈ Board.all, ∀ pin ∈ board.pins, OneLine pin.value := by decide +kernel
  obtain ⟨board, hboard, hpin⟩ := List.any_eq_true.1 h
  obtain ⟨pin, hpin, heq⟩ := List.any_eq_true.1 hpin
  rw [← beq_iff_eq.1 heq]
  exact hpins board hboard pin hpin

/-- What can be read back into such a choice has no line breaks. -/
theorem FieldSpec.oneLine_display {spec : FieldSpec} {value stored : FieldValue} {board : Board}
    (hs : spec.isTame = true) (h : Workspace.restorable spec value board = .ok stored) :
    OneLine value.display := by
  obtain ⟨name, kind⟩ := spec
  cases kind with
  | number | text => cases hs
  | dropdown source =>
    cases source with
    | fixed options =>
      have h : (if options.any fun option => option.value == value.display then
          Except.ok (FieldValue.text value.display)
        else .error (FieldFault.notAnOption value.display)) = .ok stored := h
      split at h
      next hany =>
        obtain ⟨option, hoption, heq⟩ := List.any_eq_true.1 hany
        have hone := List.all_eq_true.1 hs option hoption
        rw [← beq_iff_eq.1 heq]
        exact of_decide_eq_true hone
      next => cases h
    | onBoard resolve =>
      have h : (if Board.isPinOfAny value.display then
          Except.ok (FieldValue.text value.display)
        else .error (FieldFault.notAPin value.display)) = .ok stored := h
      split at h
      next hpin => exact oneLine_of_isPin hpin
      next => cases h

namespace Library

theorem isTame_of_choice {type : BlockType} {name : String} {spec : FieldSpec}
    (htype : type ∈ types) (hname : name ∈ choices) (hspec : type.field? name = some spec) :
    spec.isTame = true := by
  have hall : ∀ type ∈ types, ∀ spec ∈ type.fields, spec.name ∈ choices → spec.isTame = true := by
    decide +kernel
  have hsame : spec.name = name := by simpa using List.find?_some hspec
  exact hall type htype spec (List.mem_of_find?_eq_some hspec) (hsame ▸ hname)

theorem oneLine_empty {type : BlockType} (htype : type ∈ types) :
    ∀ slot ∈ type.sockets.valueSlots, OneLine slot.empty := by
  have hall : ∀ type ∈ types, ∀ slot ∈ type.sockets.valueSlots, OneLine slot.empty := by
    decide +kernel
  exact hall type htype

theorem oneLine_call {name : String} {arguments : List String} (hname : OneLine name)
    (h : ∀ a ∈ arguments, OneLine a) : OneLine (call name arguments) := by
  have hjoined : OneLine (String.intercalate ", " arguments) := by
    induction arguments with
    | nil => exact .empty
    | cons a rest ih =>
      have ha := h a List.mem_cons_self
      have hrest := ih fun x hx => h x (List.mem_cons_of_mem _ hx)
      cases rest with
      | nil => simpa using ha
      | cons b rest =>
        rw [String.intercalate_cons_cons]
        exact (ha.append (by decide)).append hrest
  exact ((hname.append (by decide)).append hjoined).append (by decide)

theorem oneLine_numeral (n : UInt64) : OneLine (numeral n) :=
  OneLine.toString_nat n.toNat

theorem oneLine_literal (s : String) : OneLine (Text.literal s) :=
  fun _ hc => (Text.mem_literal hc).imp_right And.left

theorem oneLine_loopVariable (ctx : Context) : OneLine ctx.loopVariable := by
  unfold Context.loopVariable
  split
  · decide
  · decide
  · decide
  · exact OneLine.append (by decide) (OneLine.toString_nat _)

/-- A builtin statement is one line, or a header with a chain below it. -/
theorem statement_cases {type : BlockType} {ctx : Context} (htype : type ∈ types)
    (hstatement : type.category = .statement) (hctx : ctx.Tame) :
    (∃ header, header? ctx type.kind = some header ∧ Visible header ∧ OneLine header ∧
      type.sockets.statementSlots = ["DO"] ∧
      type.generator ctx = container header (ctx.statement "DO")) ∨
    (header? ctx type.kind = none ∧ ∃ code, sentence? ctx type.kind = some code ∧
      Visible code ∧ OneLine code ∧ type.generator ctx = line code) := by
  have hsentence : ∀ name arguments, Visible name → OneLine name → (∀ a ∈ arguments, OneLine a) →
      ∃ code, some (call name arguments ++ ";") = some code ∧ Visible code ∧ OneLine code ∧
        line (call name arguments ++ ";") = line code := by
    intro name arguments hvisible hname harguments
    exact ⟨_, rfl, (((hvisible.append _).append _).append _).append _,
      (oneLine_call hname harguments).append (by decide), rfl⟩
  have hpin := hctx.field "PIN" (by decide)
  simp only [types, List.mem_cons, List.not_mem_nil, or_false] at htype
  rcases htype with rfl | rfl | rfl | rfl | rfl | rfl | rfl | rfl | rfl | rfl | rfl | rfl | rfl |
    rfl | rfl <;> cases hstatement
  · refine .inr ⟨rfl, hsentence "pinMode" [ctx.field "PIN", ctx.field "MODE"] (by decide)
      (by decide) ?_⟩
    simpa using ⟨hpin, hctx.field "MODE" (by decide)⟩
  · refine .inr ⟨rfl, hsentence "digitalWrite" [ctx.field "PIN", ctx.field "STATE"] (by decide)
      (by decide) ?_⟩
    simpa using ⟨hpin, hctx.field "STATE" (by decide)⟩
  · refine .inr ⟨rfl, hsentence "analogWrite" [ctx.field "PIN", ctx.value "VALUE"] (by decide)
      (by decide) ?_⟩
    simpa using ⟨hpin, hctx.value "VALUE"⟩
  · refine .inr ⟨rfl, hsentence "delay" [numeral (ctx.number "MS")] (by decide) (by decide) ?_⟩
    simpa using oneLine_numeral _
  · refine .inl ⟨_, rfl, ?_, ?_, rfl, rfl⟩
    · exact ⟨'f', by simp, by decide⟩
    · simp only [OneLine.append_iff, oneLine_loopVariable, oneLine_numeral, and_true]
      decide
  · refine .inl ⟨_, rfl, ?_, ?_, rfl, rfl⟩
    · exact (Visible.append (by decide) _).append _
    · exact (OneLine.append (by decide) (hctx.value "CONDITION")).append (by decide)
  · refine .inr ⟨rfl, hsentence "Serial.begin" [ctx.field "BAUD"] (by decide) (by decide) ?_⟩
    simpa using hctx.field "BAUD" (by decide)
  · refine .inr ⟨rfl, hsentence "Serial.println" [ctx.value "TEXT"] (by decide) (by decide) ?_⟩
    simpa using hctx.value "TEXT"

/-- A builtin expression has no line breaks, whatever its text is. -/
theorem expression_cases {type : BlockType} {ctx : Context} (htype : type ∈ types)
    (hvalue : type.category = .value) (hctx : ctx.Tame) :
    ∃ code order, type.generator ctx = .value code order ∧ OneLine code := by
  have hpin := hctx.field "PIN" (by decide)
  simp only [types, List.mem_cons, List.not_mem_nil, or_false] at htype
  rcases htype with rfl | rfl | rfl | rfl | rfl | rfl | rfl | rfl | rfl | rfl | rfl | rfl | rfl |
    rfl | rfl <;> cases hvalue
  · exact ⟨_, _, rfl, oneLine_numeral _⟩
  · exact ⟨_, _, rfl, oneLine_literal _⟩
  · exact ⟨_, _, rfl, oneLine_call (by decide) (by simpa using hpin)⟩
  · exact ⟨_, _, rfl, oneLine_call (by decide) (by simpa using hpin)⟩
  · refine ⟨_, _, rfl, ?_⟩
    have hoperator := hctx.field "OP" (by decide)
    exact ((((hctx.value "A").append (by decide)).append hoperator).append (by decide)).append
      (hctx.value "B")

end Library

end BlockSketch
