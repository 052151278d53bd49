import BlockSketch.Json.Value

/-!
Writing JSON.  There are two layouts: a compact one without any blanks, which
is what gets stored, and one with a line for every item and member, indented by
two spaces for each container around it.  Both write the members of an object
in the order in which they stand, and both escape only what a JSON string must
not hold as it is.
-/

namespace BlockSketch.Json

def hexDigit (n : Nat) : Char :=
  (Nat.digitChar n)

def escapedChar (c : Char) : List Char :=
  match c with
  | '"' => ['\\', '"']
  | '\\' => ['\\', '\\']
  | '\n' => ['\\', 'n']
  | '\r' => ['\\', 'r']
  | '\t' => ['\\', 't']
  | '\x08' => ['\\', 'b']
  | '\x0c' => ['\\', 'f']
  | c =>
    if c.toNat < 0x20 then
      ['\\', 'u', '0', '0', hexDigit (c.toNat / 16), hexDigit (c.toNat % 16)]
    else [c]

def quotedString (s : String) : List Char :=
  '"' :: s.toList.flatMap escapedChar ++ ['"']

def scalarText : Json → List Char
  | .null => ['n', 'u', 'l', 'l']
  | .bool true => ['t', 'r', 'u', 'e']
  | .bool false => ['f', 'a', 'l', 's', 'e']
  | .number n => n.text.toList
  | .string s => quotedString s
  | .array _ | .object _ => []

/-! ### The compact layout -/

mutual

/-- The characters of a value, without blanks. -/
def compactText : Json → List Char
  | .array items => '[' :: compactItems true items
  | .object members => '\x7b' :: compactMembers true members
  | value => scalarText value

/-- The items of an array up to its closing bracket; `first` says that no item
stands before them. -/
def compactItems (first : Bool) : List Json → List Char
  | [] => [']']
  | item :: rest =>
    (if first then [] else [',']) ++ compactText item ++ compactItems false rest

def compactMembers (first : Bool) : List (String × Json) → List Char
  | [] => ['\x7d']
  | (name, value) :: rest =>
    (if first then [] else [',']) ++ quotedString name ++ ':' :: compactText value ++
      compactMembers false rest

end

def compact (value : Json) : String :=
  String.ofList (compactText value)

/-! ### The indented layout -/

/-- A line break, and two spaces for each container that is open. -/
def lineBreak (level : Nat) : List Char :=
  '\n' :: List.replicate (2 * level) ' '

mutual

/-- The characters of a value inside `level` containers, a line for each item
and member.  A container with nothing in it stays on its line. -/
def prettyText (level : Nat) : Json → List Char
  | .array [] => ['[', ']']
  | .array items => '[' :: prettyItems level true items
  | .object [] => ['\x7b', '\x7d']
  | .object members => '\x7b' :: prettyMembers level true members
  | value => scalarText value

def prettyItems (level : Nat) (first : Bool) : List Json → List Char
  | [] => lineBreak level ++ [']']
  | item :: rest =>
    (if first then [] else [',']) ++ lineBreak (level + 1) ++ prettyText (level + 1) item ++
      prettyItems level false rest

def prettyMembers (level : Nat) (first : Bool) : List (String × Json) → List Char
  | [] => lineBreak level ++ ['\x7d']
  | (name, value) :: rest =>
    (if first then [] else [',']) ++ lineBreak (level + 1) ++ quotedString name ++
      ':' :: ' ' :: prettyText (level + 1) value ++ prettyMembers level false rest

end

def pretty (value : Json) : String :=
  String.ofList (prettyText 0 value)

end BlockSketch.Json
