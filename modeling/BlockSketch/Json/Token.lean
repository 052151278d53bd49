import BlockSketch.Json.Value
import BlockSketch.Text.Number

/-!
The words of a JSON text: brackets, separators, names, numbers and strings.
The scanner takes one character at a time and keeps what it has begun, so that
a text of any length is read in one pass, and a text cut in two is read by
scanning the parts one after the other.

Syntax is checked everywhere.  Two things are left to whoever looks at the
value: whether a number lies within the range of doubles, and whether the
surrogates of a string pair up.  Such a word is scanned, but has no content.
-/

namespace BlockSketch.Json

/-- A word of a JSON text. A number may be out of range, and the surrogates of a
string may not pair up. -/
inductive Token
  | openArray
  | closeArray
  | openObject
  | closeObject
  | comma
  | colon
  | null
  | bool (b : Bool)
  | number (n : Option Number)
  | string (s : Option String)
deriving DecidableEq, Repr, Inhabited

/-! ### Numbers -/

namespace Numeral

inductive Part
  | minus
  | zero
  | whole
  | point
  | fraction
  | exponentMark
  | exponentSign
  | exponent
deriving DecidableEq, Repr, Inhabited

/-- The parts after which a number may end. -/
def Part.isEnd : Part → Bool
  | .zero | .whole | .fraction | .exponent => true
  | _ => false

end Numeral

/-- A number that is being scanned. Of its digits the leading ones are kept, as
many as fit sixty-four bits, until the part is full; `shift` is the power of ten
that makes up for those dropped and for those behind the point. It is exact while
there are only digits, and all of them kept. -/
structure Numeral where
  part : Numeral.Part
  negative : Bool
  digits : Nat
  shift : Int
  full : Bool
  exact : Bool
  exponentNegative : Bool
  exponent : Nat
deriving DecidableEq, Repr, Inhabited

namespace Numeral

def start : Numeral :=
  ⟨.minus, false, 0, 0, false, true, false, 0⟩

def addWhole (n : Numeral) (d : Nat) : Numeral :=
  let digits := n.digits * 10 + d
  if !n.full && digits < UInt64.size then { n with part := .whole, digits := digits }
  else { n with part := .whole, full := true, exact := false, shift := n.shift + 1 }

def addFraction (n : Numeral) (d : Nat) : Numeral :=
  let digits := n.digits * 10 + d
  if !n.full && digits < UInt64.size then
    { n with part := .fraction, digits := digits, shift := n.shift - 1 }
  else { n with part := .fraction, full := true }

def addExponent (n : Numeral) (d : Nat) : Numeral :=
  { n with part := .exponent, exponent := n.exponent * 10 + d }

def next? (n : Numeral) (c : Char) : Option Numeral :=
  match n.part, Text.digit? c with
  | .minus, some 0 => some { n with part := .zero }
  | .minus, some d => some (n.addWhole d)
  | .whole, some d => some (n.addWhole d)
  | .point, some d | .fraction, some d => some (n.addFraction d)
  | .exponentMark, some d | .exponentSign, some d | .exponent, some d => some (n.addExponent d)
  | .zero, none | .whole, none =>
    if c = '.' then some { n with part := .point, full := false, exact := false }
    else if c = 'e' ∨ c = 'E' then some { n with part := .exponentMark, exact := false }
    else none
  | .fraction, none =>
    if c = 'e' ∨ c = 'E' then some { n with part := .exponentMark } else none
  | .exponentMark, none =>
    if c = '+' then some { n with part := .exponentSign }
    else if c = '-' then some { n with part := .exponentSign, exponentNegative := true }
    else none
  | _, _ => none

/-- The number that was scanned, if it is within range.  Digits alone are a
whole number as long as sixty-four bits hold it; minus zero is a double. -/
def value? (n : Numeral) : Option Number :=
  let real : Option Number :=
    let exponent : Int := if n.exponentNegative then -n.exponent else n.exponent
    (Double.ofLiteral? n.negative n.digits (n.shift + exponent)).map .real
  if n.exact then
    if n.negative then Number.ofNegative? n.digits <|> real
    else Number.ofNat? n.digits <|> real
  else real

end Numeral

/-! ### Strings

The units of a string are its characters and the values of its `\u` escapes,
by number.  Two escapes that are a high and a low surrogate are one character;
any other surrogate stands for nothing. -/

def charsOfUnits? : List Nat → Option (List Char)
  | [] => some []
  | u :: rest =>
    if 0xD800 ≤ u ∧ u < 0xDC00 then
      match rest with
      | [] => none
      | low :: rest =>
        if 0xDC00 ≤ low ∧ low < 0xE000 then do
          let cs ← charsOfUnits? rest
          return Char.ofNat (0x10000 + (u - 0xD800) * 0x400 + (low - 0xDC00)) :: cs
        else none
    else if 0xDC00 ≤ u ∧ u < 0xE000 then none
    else do
      let cs ← charsOfUnits? rest
      return Char.ofNat u :: cs

def escapedUnit? : Char → Option Nat
  | '"' => some '"'.toNat
  | '\\' => some '\\'.toNat
  | '/' => some '/'.toNat
  | 'b' => some 0x08
  | 'f' => some 0x0C
  | 'n' => some 0x0A
  | 'r' => some 0x0D
  | 't' => some 0x09
  | _ => none

/-! ### The scanner -/

/-- What the scanner has begun: a word of which some letters are missing, a
number, a string with its units so far, the last one first, an escape in it, or a
code of which some hexadecimal digits are missing. -/
inductive Scan
  | between
  | word (missing : List Char) (token : Token)
  | numeral (n : Numeral)
  | text (units : List Nat)
  | escape (units : List Nat)
  | code (units : List Nat) (missing : Nat) (value : Nat)
deriving DecidableEq, Repr, Inhabited

/-- The scanner: the words so far, the last one first, and what is begun. -/
structure Scanner where
  tokens : List Token
  scan : Scan
deriving Inhabited

namespace Scanner

def start : Scanner :=
  ⟨[], .between⟩

def push (s : Scanner) (token : Token) : Scanner :=
  ⟨token :: s.tokens, .between⟩

def isSpace (c : Char) : Bool :=
  c == ' ' || c == '\n' || c == '\t' || c == '\r'

/-- A character that begins a word, or stands between two. -/
def begin? (s : Scanner) (c : Char) : Option Scanner :=
  if isSpace c then some ⟨s.tokens, .between⟩
  else
    match c with
    | '[' => some (s.push .openArray)
    | ']' => some (s.push .closeArray)
    | '\x7b' => some (s.push .openObject)
    | '\x7d' => some (s.push .closeObject)
    | ',' => some (s.push .comma)
    | ':' => some (s.push .colon)
    | '"' => some { s with scan := .text [] }
    | 'n' => some { s with scan := .word ['u', 'l', 'l'] .null }
    | 't' => some { s with scan := .word ['r', 'u', 'e'] (.bool true) }
    | 'f' => some { s with scan := .word ['a', 'l', 's', 'e'] (.bool false) }
    | '-' => some { s with scan := .numeral { Numeral.start with negative := true } }
    | c => (Numeral.start.next? c).map fun n => { s with scan := .numeral n }

def step? (s : Scanner) (c : Char) : Option Scanner :=
  match s.scan with
  | .between => s.begin? c
  | .word missing token =>
    match missing with
    | [] => none
    | [last] => if c = last then some (s.push token) else none
    | next :: more => if c = next then some { s with scan := .word more token } else none
  | .numeral n =>
    match n.next? c with
    | some n => some { s with scan := .numeral n }
    | none => if n.part.isEnd then (s.push (.number n.value?)).begin? c else none
  | .text units =>
    if c = '"' then some (s.push (.string ((charsOfUnits? units.reverse).map String.ofList)))
    else if c = '\\' then some { s with scan := .escape units }
    else if c.toNat < 0x20 then none
    else some { s with scan := .text (c.toNat :: units) }
  | .escape units =>
    if c = 'u' then some { s with scan := .code units 4 0 }
    else (escapedUnit? c).map fun u => { s with scan := .text (u :: units) }
  | .code units missing value => do
    let value := value * 16 + (← Text.hexDigit? c)
    if missing ≤ 1 then return { s with scan := .text (value :: units) }
    else return { s with scan := .code units (missing - 1) value }

def run? (s : Scanner) (cs : List Char) : Option Scanner :=
  cs.foldlM step? s

def finish? (s : Scanner) : Option (List Token) :=
  match s.scan with
  | .between => some s.tokens.reverse
  | .numeral n => if n.part.isEnd then some (Token.number n.value? :: s.tokens).reverse else none
  | _ => none

end Scanner

def tokens? (cs : List Char) : Option (List Token) := do
  (← Scanner.start.run? cs).finish?

end BlockSketch.Json
