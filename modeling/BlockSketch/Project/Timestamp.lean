import BlockSketch.Text.Blank
import BlockSketch.Text.Number

/-!
Points in time.  A project record says when it was last changed, as a date and
a time with an offset from universal time.  The form is read generously: blanks
may stand in front of the numbers and the marks between them, leading zeros may
be missing, and the offset has a few spellings.  It is always written the same
way, in universal time and with as many digits of the second as are needed, in
groups of three.
-/

namespace BlockSketch

/-- A point in time: seconds since the beginning of 1970, not counting leap
seconds, and nanoseconds within the second, which go on to 2 000 000 000 in a leap
second. -/
structure Timestamp where
  second : Int
  fraction : Nat
deriving DecidableEq, Repr, Inhabited

namespace Timestamp

def notAfter (a b : Timestamp) : Bool :=
  a.second < b.second || (a.second == b.second && a.fraction ≤ b.fraction)

/-! ### The calendar

Days are counted from 1 March of year 0, so that a leap day is the last day of
its year and a year's months follow one formula. -/

/-- Days of the calendar before a month, counted from March as month 0. -/
def daysBeforeMonth (month : Nat) : Nat :=
  (153 * month + 2) / 5

/-- The day number of a date, 1 January 1970 being day 0. -/
def dayOfDate (year : Int) (month day : Nat) : Int :=
  let y := if month ≤ 2 then year - 1 else year
  let m := if month ≤ 2 then month + 9 else month - 3
  365 * y + Int.fdiv y 4 - Int.fdiv y 100 + Int.fdiv y 400 + daysBeforeMonth m + (day - 1 : Nat)
    - 719468

def dateOfDay (day : Int) : Int × Nat × Nat :=
  let z := day + 719468
  let era := Int.fdiv z 146097
  let ofEra := (z - era * 146097).toNat
  let yearOfEra := (ofEra - ofEra / 1460 + ofEra / 36524 - ofEra / 146096) / 365
  let ofYear := ofEra - (365 * yearOfEra + yearOfEra / 4 - yearOfEra / 100)
  let m := (5 * ofYear + 2) / 153
  let month := if m < 10 then m + 3 else m - 9
  let year := (yearOfEra : Int) + era * 400
  (if month ≤ 2 then year + 1 else year, month, ofYear - daysBeforeMonth m + 1)

def isLeapYear (year : Int) : Bool :=
  year % 4 == 0 && (year % 100 != 0 || year % 400 == 0)

def daysInMonth (year : Int) (month : Nat) : Nat :=
  if month = 2 then (if isLeapYear year then 29 else 28)
  else if month ∈ [4, 6, 9, 11] then 30 else 31

/-- The years that the calendar goes up to on either side. -/
def isYear (year : Int) : Bool :=
  -262143 ≤ year && year ≤ 262142

/-! ### Reading -/

/-- Reads up to `limit` digits, and at least one. -/
def digits? (limit : Nat) (cs : List Char) : Option (Nat × List Char) :=
  let ds := (cs.take limit).takeWhile fun c => (Text.digit? c).isSome
  (Text.natural? ds).map fun n => (n, cs.drop ds.length)

def number? (limit : Nat) (cs : List Char) : Option (Nat × List Char) :=
  digits? limit (cs.dropWhile Text.isBlank)

def mark? (mark : Char) (cs : List Char) : Option (List Char) :=
  match cs.dropWhile Text.isBlank with
  | c :: rest => if c = mark then some rest else none
  | [] => none

/-- Reads a year: four digits at most, or any number of them after a sign. -/
def year? (cs : List Char) : Option (Int × List Char) :=
  match cs.dropWhile Text.isBlank with
  | '-' :: rest => (digits? rest.length rest).map fun (n, rest) => (-(n : Int), rest)
  | '+' :: rest => (digits? rest.length rest).map fun (n, rest) => ((n : Int), rest)
  | cs => (digits? 4 cs).map fun (n, rest) => ((n : Int), rest)

/-- Reads the digits behind the point of a second.  Nine count. -/
def fraction? : List Char → Option (Nat × List Char)
  | '.' :: rest => do
    let (n, after) ← digits? 9 rest
    let length := rest.length - after.length
    return (n * Nat.pow 10 (9 - length), after.dropWhile fun c => (Text.digit? c).isSome)
  | cs => some (0, cs)

def twoDigits? : List Char → Option (Nat × List Char)
  | a :: b :: rest => do
    return (10 * (← Text.digit? a) + (← Text.digit? b), rest)
  | _ => none

def offsetSize? (cs : List Char) : Option (Nat × List Char) := do
  let (hours, cs) ← twoDigits? cs
  let (minutes, cs) ← twoDigits? (cs.dropWhile fun c => c == ':' || Text.isBlank c)
  let size := hours * 3600 + minutes * 60
  if minutes < 60 ∧ size < 86400 then some (size, cs) else none

def offset? (cs : List Char) : Option (Int × List Char) :=
  match cs.dropWhile Text.isBlank with
  | 'Z' :: rest | 'z' :: rest => some (0, rest)
  | '+' :: rest => (offsetSize? rest).map fun (n, rest) => ((n : Int), rest)
  | '-' :: rest | '\u2212' :: rest => (offsetSize? rest).map fun (n, rest) => (-(n : Int), rest)
  | u :: t :: c :: rest =>
    if [u.toUpper, t.toUpper, c.toUpper] = ['U', 'T', 'C'] then some (0, rest) else none
  | _ => none

/-- The point in time of a date and a time with an offset, if there is one. -/
def ofParts? (year : Int) (month day hour minute second fraction : Nat) (offset : Int) :
    Option Timestamp :=
  if isYear year ∧ 1 ≤ month ∧ month ≤ 12 ∧ 1 ≤ day ∧ day ≤ daysInMonth year month ∧
      hour < 24 ∧ minute < 60 ∧ second ≤ 60 then
    let leap := second == 60
    let ofDay : Nat := hour * 3600 + minute * 60 + if leap then 59 else second
    let total := dayOfDate year month day * 86400 + ofDay - offset
    if isYear (dateOfDay (Int.fdiv total 86400)).1 then
      some ⟨total, fraction + if leap then 1000000000 else 0⟩
    else none
  else none

def ofText? (text : String) : Option Timestamp := do
  let (year, cs) ← year? text.toList
  let (month, cs) ← number? 2 (← mark? '-' cs)
  let (day, cs) ← number? 2 (← mark? '-' cs)
  let cs ← match cs with
    | 'T' :: rest | 't' :: rest | ' ' :: rest => some rest
    | _ => none
  let (hour, cs) ← number? 2 cs
  let (minute, cs) ← number? 2 (← mark? ':' cs)
  let (second, cs) ← number? 2 (← mark? ':' cs)
  let (fraction, cs) ← fraction? cs
  let (offset, cs) ← offset? cs
  if Text.isBlankLine cs then ofParts? year month day hour minute second fraction offset else none

/-! ### Writing -/

def padded (width n : Nat) : String :=
  let digits := Nat.toDigits 10 n
  String.ofList (List.replicate (width - digits.length) '0' ++ digits)

/-- A year: four digits, and a sign where four digits do not reach. -/
def yearText (year : Int) : String :=
  if year < 0 then "-" ++ padded 4 year.natAbs
  else if 9999 < year then "+" ++ padded 4 year.natAbs
  else padded 4 year.natAbs

/-- The digits behind the point of a second: none, three, six or nine. -/
def fractionText (nanoseconds : Nat) : String :=
  if nanoseconds = 0 then ""
  else if nanoseconds % 1000000 = 0 then "." ++ padded 3 (nanoseconds / 1000000)
  else if nanoseconds % 1000 = 0 then "." ++ padded 6 (nanoseconds / 1000)
  else "." ++ padded 9 nanoseconds

def text (t : Timestamp) : String :=
  let (year, month, day) := dateOfDay (Int.fdiv t.second 86400)
  let ofDay := (Int.fmod t.second 86400).toNat
  let second := ofDay % 60 + t.fraction / 1000000000
  yearText year ++ "-" ++ padded 2 month ++ "-" ++ padded 2 day ++ "T" ++
    padded 2 (ofDay / 3600) ++ ":" ++ padded 2 (ofDay / 60 % 60) ++ ":" ++ padded 2 second ++
    fractionText (t.fraction % 1000000000) ++ "Z"

end Timestamp

end BlockSketch
