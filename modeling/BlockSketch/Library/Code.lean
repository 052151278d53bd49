import BlockSketch.Block.Fragment
import BlockSketch.Sketch.Indent
import BlockSketch.Text.Literal

/-!
The code of the builtin blocks.  Containers move their chain in by one level
and close it with a brace; everything else is one line or one expression.
-/

namespace BlockSketch.Library

def line (code : String) : Fragment :=
  .statement (code ++ "\n")

/-- A header, a chain one level further in, and a closing brace. -/
def container (header chain : String) : Fragment :=
  .statement (header ++ " \x7b\n" ++ Sketch.indent chain 1 ++ "\x7d\n")

def call (name : String) (arguments : List String) : String :=
  name ++ "(" ++ String.intercalate ", " arguments ++ ")"

def numeral (n : UInt64) : String :=
  toString n.toNat

/-! ### Containers -/

def setupCode : Generator := fun ctx =>
  container "void setup()" (ctx.statement "DO")

def loopCode : Generator := fun ctx =>
  container "void loop()" (ctx.statement "DO")

def repeatTimesCode : Generator := fun ctx =>
  let counter := ctx.loopVariable
  let limit := numeral (ctx.number "TIMES")
  container s!"for (unsigned long {counter} = 0; {counter} < {limit}; {counter}++)"
    (ctx.statement "DO")

def ifThenCode : Generator := fun ctx =>
  container ("if (" ++ ctx.value "CONDITION" ++ ")") (ctx.statement "DO")

/-! ### Statements -/

def pinModeCode : Generator := fun ctx =>
  line (call "pinMode" [ctx.field "PIN", ctx.field "MODE"] ++ ";")

def digitalWriteCode : Generator := fun ctx =>
  line (call "digitalWrite" [ctx.field "PIN", ctx.field "STATE"] ++ ";")

def analogWriteCode : Generator := fun ctx =>
  line (call "analogWrite" [ctx.field "PIN", ctx.value "VALUE"] ++ ";")

def delayCode : Generator := fun ctx =>
  line (call "delay" [numeral (ctx.number "MS")] ++ ";")

def serialBeginCode : Generator := fun ctx =>
  line (call "Serial.begin" [ctx.field "BAUD"] ++ ";")

def serialPrintCode : Generator := fun ctx =>
  line (call "Serial.println" [ctx.value "TEXT"] ++ ";")

/-! ### Expressions -/

def numberCode : Generator := fun ctx =>
  .value (numeral (ctx.number "NUM")) .atomic

def textCode : Generator := fun ctx =>
  .value (Text.literal (ctx.field "TEXT")) .atomic

def digitalReadCode : Generator := fun ctx =>
  .value (call "digitalRead" [ctx.field "PIN"]) .unaryPostfix

def analogReadCode : Generator := fun ctx =>
  .value (call "analogRead" [ctx.field "PIN"]) .unaryPostfix

/-- The order of a comparison with this operator: equality binds less tightly
than the other comparisons. -/
def comparisonOrder (operator : String) : Order :=
  if operator = "==" ∨ operator = "!=" then .equality else .relational

def compareCode : Generator := fun ctx =>
  let operator := ctx.field "OP"
  .value (ctx.value "A" ++ " " ++ operator ++ " " ++ ctx.value "B") (comparisonOrder operator)

end BlockSketch.Library
