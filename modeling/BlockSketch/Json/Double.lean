/-!
Numbers with a fraction, an exponent, or more digits than sixty-four bits hold.
They occur in documents that other programs wrote and are carried along as
doubles.  A literal is read by scaling its leading digits with one power of
ten; it is written with the fewest digits that lead back to the same double.
-/

namespace BlockSketch.Json

/-- A finite double, by its bit pattern. -/
structure Double where
  bits : UInt64
deriving DecidableEq, Repr, Inhabited

namespace Double

def toFloat (d : Double) : Float :=
  Float.ofBits d.bits

def powerOfTen (n : Nat) : Float :=
  Float.ofScientific 1 false n

/-- Scales by a power of ten.  A scale below 10^-308 is applied in steps, and
three of them bring every sixty-four bit number to zero. -/
def scale : Nat → Float → Int → Option Float
  | 0, f, _ => some f
  | steps + 1, f, exponent =>
    if exponent.natAbs ≤ 308 then
      if 0 ≤ exponent then
        let scaled := f * powerOfTen exponent.natAbs
        if scaled.isInf then none else some scaled
      else some (f / powerOfTen exponent.natAbs)
    else if f == 0 then some f
    else if 0 ≤ exponent then none
    else scale steps (f / powerOfTen 308) (exponent + 308)

/-- The double of a literal with the given leading digits and exponent, unless
it lies beyond the largest one. -/
def ofLiteral? (negative : Bool) (digits : Nat) (exponent : Int) : Option Double := do
  let f ← scale 3 (UInt64.ofNat digits).toFloat exponent
  return ⟨(if negative then -f else f).toBits⟩

/-! ### The parts of a double -/

def isNegative (d : Double) : Bool :=
  d.bits >>> 63 == 1

/-- The value without its sign is `fst * 2 ^ snd`. -/
def parts (d : Double) : Nat × Int :=
  let fraction : Nat := (d.bits &&& 0xFFFFFFFFFFFFF).toNat
  let exponent : Nat := (d.bits >>> 52 &&& 0x7FF).toNat
  if exponent = 0 then (fraction, -1074)
  else (fraction + 0x10000000000000, (exponent : Int) - 1075)

/-! ### The fewest digits

`numerator / denominator` is the value, and the reals that round to it reach
from the value less `below` to the value plus `above`, over the same
denominator.  The first power of ten with a multiple in that range gives the
shortest digits. -/

/-- A value with the reals around it that round to it, and whether the two ends
belong to them. -/
structure Range where
  numerator : Nat
  denominator : Nat
  below : Nat
  above : Nat
  closed : Bool

def range (d : Double) : Range :=
  let (m, e) := d.parts
  let atPower := m == 0x10000000000000 && -1074 < e
  let up : Nat := 1 <<< e.toNat
  let down : Nat := 1 <<< (-e).toNat
  { numerator := 4 * m * up
    denominator := 4 * down
    below := (if atPower then 1 else 2) * up
    above := 2 * up
    closed := m % 2 == 0 }

def Range.contains (r : Range) (n : Nat) (k : Int) : Bool :=
  let left := n * Nat.pow 10 k.toNat * r.denominator
  let value := r.numerator * Nat.pow 10 (-k).toNat
  let below := r.below * Nat.pow 10 (-k).toNat
  let above := r.above * Nat.pow 10 (-k).toNat
  if r.closed then value ≤ left + below && left ≤ value + above
  else value < left + below && left < value + above

/-- The multiple of `10 ^ k` in the range that is nearest to the value. -/
def Range.multiple? (r : Range) (k : Int) : Option Nat :=
  let value := r.numerator * Nat.pow 10 (-k).toNat
  let unit := r.denominator * Nat.pow 10 k.toNat
  let n := value / unit
  let twice := 2 * (value % unit)
  let nearer := if twice < unit || (twice == unit && n % 2 == 0) then n else n + 1
  let farther := if nearer == n then n + 1 else n
  if r.contains nearer k then some nearer
  else if r.contains farther k then some farther
  else none

/-- Tries the powers of ten downward from `k`. -/
def Range.shortest (r : Range) : Nat → Int → Nat × Int
  | 0, k => (0, k)
  | steps + 1, k =>
    match r.multiple? k with
    | some n => (n, k)
    | none => shortest r steps (k - 1)

/-- Digits and exponent of the shortest decimal that rounds to the double. -/
def shortest (d : Double) : Nat × Int :=
  d.range.shortest 640 309

/-! ### Layout

Up to sixteen places the point stands where it belongs, and a number without a
fraction gets one zero behind it.  Larger and much smaller numbers are written
with one digit before the point and an exponent, which always has its sign. -/

def exponentPart (e : Int) : List Char :=
  'e' :: (if e < 0 then '-' else '+') :: Nat.toDigits 10 e.natAbs

def layout (digits : List Char) (exponent : Int) : List Char :=
  let places : Int := digits.length + exponent
  if 0 ≤ exponent ∧ places ≤ 16 then
    digits ++ List.replicate exponent.toNat '0' ++ ['.', '0']
  else if 0 < places ∧ places ≤ 16 then
    digits.take places.toNat ++ '.' :: digits.drop places.toNat
  else if -5 < places ∧ places ≤ 0 then
    '0' :: '.' :: List.replicate (-places).toNat '0' ++ digits
  else
    match digits with
    | [] => exponentPart (places - 1)
    | [d] => d :: exponentPart (places - 1)
    | d :: more => d :: '.' :: more ++ exponentPart (places - 1)

def text (d : Double) : String :=
  let digits :=
    if d.parts.1 = 0 then ['0', '.', '0']
    else layout (Nat.toDigits 10 d.shortest.1) d.shortest.2
  String.ofList (if d.isNegative then '-' :: digits else digits)

end Double

end BlockSketch.Json
