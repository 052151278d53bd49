/-!
Text from bytes.  The tool that talks to the board writes bytes; most of them
are UTF-8, and where they are not, the longest broken start of a character is
shown as one replacement character.
-/

namespace BlockSketch.Text

/-- The values allowed for the byte after a leading byte, and the number of
continuation bytes that the leading byte asks for. -/
def continuation (lead : UInt8) : Option (UInt8 × UInt8 × Nat) :=
  if 0xC2 ≤ lead && lead ≤ 0xDF then some (0x80, 0xBF, 1)
  else if lead == 0xE0 then some (0xA0, 0xBF, 2)
  else if lead == 0xED then some (0x80, 0x9F, 2)
  else if 0xE1 ≤ lead && lead ≤ 0xEF then some (0x80, 0xBF, 2)
  else if lead == 0xF0 then some (0x90, 0xBF, 3)
  else if 0xF1 ≤ lead && lead ≤ 0xF3 then some (0x80, 0xBF, 3)
  else if lead == 0xF4 then some (0x80, 0x8F, 3)
  else none

/-- Takes up to `count` continuation bytes from the front, the first of them
within the given bounds: the bytes taken. -/
def continuationBytes (low high : UInt8) : Nat → List UInt8 → List UInt8
  | 0, _ => []
  | _, [] => []
  | count + 1, b :: rest =>
    if low ≤ b && b ≤ high then b :: continuationBytes 0x80 0xBF count rest else []

def leadBits (lead : UInt8) (count : Nat) : Nat :=
  lead.toNat % (1 <<< (6 - count))

/-- Reads one character at a leading byte: the character, or nothing for a
broken start, and how many bytes after the leading one it takes. -/
def readChar (lead : UInt8) (rest : List UInt8) : Option Char × Nat :=
  if lead < 0x80 then (some (Char.ofNat lead.toNat), 0)
  else
    match continuation lead with
    | none => (none, 0)
    | some (low, high, count) =>
      let taken := continuationBytes low high count rest
      if taken.length = count then
        let code := taken.foldl (fun n b => n * 64 + b.toNat % 64) (leadBits lead count)
        (some (Char.ofNat code), count)
      else (none, taken.length)

/-- The characters of a byte sequence, with `none` for each broken start. -/
def readChars : List UInt8 → List (Option Char)
  | [] => []
  | lead :: rest =>
    (readChar lead rest).1 :: readChars (rest.drop (readChar lead rest).2)
termination_by bytes => bytes.length
decreasing_by simp only [List.length_drop, List.length_cons]; omega

def decode? (bytes : List UInt8) : Option String :=
  ((readChars bytes).mapM id).map String.ofList

/-- The text that the bytes encode, with a replacement character for each
broken start. -/
def decodeLossy (bytes : List UInt8) : String :=
  String.ofList ((readChars bytes).map fun c => c.getD '\uFFFD')

end BlockSketch.Text
