import BlockSketch.Text.Blank

/-!
Natural numbers as text.  They are always written in decimal without leading
zeros; what a person types into a number field is read a little more kindly,
with blanks around it and a plus sign in front.
-/

namespace BlockSketch.Text

def digit? (c : Char) : Option Nat :=
  if '0' ≤ c ∧ c ≤ '9' then some (c.toNat - '0'.toNat) else none

def hexDigit? (c : Char) : Option Nat :=
  if '0' ≤ c ∧ c ≤ '9' then some (c.toNat - '0'.toNat)
  else if 'a' ≤ c ∧ c ≤ 'f' then some (c.toNat - 'a'.toNat + 10)
  else if 'A' ≤ c ∧ c ≤ 'F' then some (c.toNat - 'A'.toNat + 10)
  else none

/-- Goes on reading digits after a number whose value so far is `value`. -/
def readDigits? (value : Nat) : List Char → Option Nat
  | [] => some value
  | c :: rest => do readDigits? (10 * value + (← digit? c)) rest

def natural? : List Char → Option Nat
  | [] => none
  | cs => readDigits? 0 cs

def word? (cs : List Char) : Option UInt64 := do
  let n ← natural? cs
  if n < UInt64.size then some (UInt64.ofNat n) else none

/-- What a number field accepts as typed text: blanks at the ends and one plus
sign are allowed. -/
def typedWord? (s : String) : Option UInt64 :=
  match dropBlankEnds s.toList with
  | '+' :: rest => word? rest
  | cs => word? cs

/-- `hex n` is `n` in hexadecimal, in small letters and without leading zeros. -/
def hex (n : Nat) : String :=
  String.ofList (Nat.toDigits 16 n)

/-- Different numbers are written differently. -/
theorem toString_injective {m n : Nat} (h : toString m = toString n) : m = n := by
  rw [Nat.toString_eq_ofList_toDigits, Nat.toString_eq_ofList_toDigits, String.ofList_inj] at h
  rw [← Nat.ofDigitChars_ten_toDigits (n := m), h, Nat.ofDigitChars_ten_toDigits]

end BlockSketch.Text
