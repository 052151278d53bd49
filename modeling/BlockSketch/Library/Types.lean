import BlockSketch.Block.Registry
import BlockSketch.Library.Code

/-!
The builtin blocks.  Two roots, eight statements and five expressions: what a
beginner needs to switch pins, to wait, to repeat, to decide and to talk over
the serial port.
-/

namespace BlockSketch.Library

/-! ### Sockets and choices -/

def inChain : Sockets :=
  { Sockets.none with previous := true, next := true }

def expression : Sockets :=
  { Sockets.none with output := true }

/-- A slot for an argument, which is never put in parentheses. -/
def argument (name empty : String) : ValueSlot :=
  ⟨name, .none, empty⟩

def operand (name : String) : ValueSlot :=
  ⟨name, .relational, "0"⟩

def pinField : FieldSpec :=
  .onBoard "PIN" FieldSpec.pinOptions

/-- A choice whose entries are shown as they stand in the code. -/
def plainChoice (name : String) (values : List String) : FieldSpec :=
  .choice name (values.map fun v => (v, v))

def pinModes : List (String × String) :=
  [("output", "OUTPUT"), ("input", "INPUT"), ("input with pull-up", "INPUT_PULLUP")]

def pinStates : List (String × String) :=
  [("high", "HIGH"), ("low", "LOW")]

def baudRates : List String :=
  ["9600", "19200", "57600", "115200"]

def comparisons : List (String × String) :=
  [("=", "=="), ("≠", "!="), ("<", "<"), ("≤", "<="), (">", ">"), ("≥", ">=")]

/-! ### The blocks -/

def root (kind : RootKind) (label : String) (generator : Generator) : BlockType where
  kind := kind.kindName
  label := label
  colour := 120
  category := .root kind
  fields := []
  sockets := { Sockets.none with statementSlots := ["DO"] }
  generator := generator

def setup : BlockType := root .setup "when the board starts %1" setupCode

def loop : BlockType := root .loop "repeat forever %1" loopCode

def pinMode : BlockType :=
  ⟨"pin_mode", "set %1 as %2", 230, .statement, [pinField, .choice "MODE" pinModes],
    inChain, pinModeCode⟩

def digitalWrite : BlockType :=
  ⟨"digital_write", "write %1 %2", 230, .statement, [pinField, .choice "STATE" pinStates],
    inChain, digitalWriteCode⟩

def analogWrite : BlockType :=
  ⟨"analog_write", "write %1 level %2", 230, .statement, [pinField],
    { inChain with valueSlots := [argument "VALUE" "0"] }, analogWriteCode⟩

def delay : BlockType :=
  ⟨"delay_ms", "wait %1 milliseconds", 120, .statement, [⟨"MS", .number 1000⟩],
    inChain, delayCode⟩

def repeatTimes : BlockType :=
  ⟨"repeat_times", "repeat %1 times %2", 120, .statement, [⟨"TIMES", .number 10⟩],
    { inChain with statementSlots := ["DO"] }, repeatTimesCode⟩

def ifThen : BlockType :=
  ⟨"if_then", "if %1 then %2", 210, .statement, [],
    { inChain with statementSlots := ["DO"], valueSlots := [argument "CONDITION" "false"] },
    ifThenCode⟩

def serialBegin : BlockType :=
  ⟨"serial_begin", "start serial at %1 baud", 160, .statement, [plainChoice "BAUD" baudRates],
    inChain, serialBeginCode⟩

def serialPrint : BlockType :=
  ⟨"serial_print", "print %1", 160, .statement, [],
    { inChain with valueSlots := [argument "TEXT" "\"\""] }, serialPrintCode⟩

def number : BlockType :=
  ⟨"number", "%1", 230, .value, [⟨"NUM", .number 0⟩], expression, numberCode⟩

def text : BlockType :=
  ⟨"text", "\"%1\"", 160, .value, [⟨"TEXT", .text ""⟩], expression, textCode⟩

def digitalRead : BlockType :=
  ⟨"digital_read", "read %1", 230, .value, [pinField], expression, digitalReadCode⟩

def analogRead : BlockType :=
  ⟨"analog_read", "read level of %1", 230, .value, [pinField], expression, analogReadCode⟩

def compare : BlockType :=
  ⟨"compare", "%1 %2 %3", 210, .value, [.choice "OP" comparisons],
    { expression with valueSlots := [operand "A", operand "B"] }, compareCode⟩

def types : List BlockType :=
  [setup, loop, pinMode, digitalWrite, analogWrite, delay, repeatTimes, ifThen, serialBegin,
    serialPrint, number, text, digitalRead, analogRead, compare]

end BlockSketch.Library

namespace BlockSketch

def Registry.builtin : Registry :=
  .ofList Library.types

end BlockSketch
