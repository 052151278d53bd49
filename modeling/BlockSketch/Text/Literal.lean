/-!
String literals of the generated sketch.  A text field ends up between double
quotes in the code, so every character that would end the literal or break the
line is written as an escape.  The reader beside the writer is what a compiler
for the sketch does with the literal; it is here so that nothing written can be
read back as something else.
-/

namespace BlockSketch.Text

/-- How one character is written between the quotes. -/
def literalChar : Char → List Char
  | '"' => ['\\', '"']
  | '\\' => ['\\', '\\']
  | '\n' => ['\\', 'n']
  | '\r' => ['\\', 'r']
  | '\t' => ['\\', 't']
  | c => [c]

def literalBody (cs : List Char) : List Char :=
  cs.flatMap literalChar

/-- `literal s` is the string literal whose value is `s`. -/
def literal (s : String) : String :=
  String.ofList ('"' :: literalBody s.toList ++ ['"'])

/-! ### Reading

A literal is read from its opening quote to the first quote that is not
escaped.  A raw line feed inside it is refused, as is an escape that
`literalChar` never writes. -/

def unescape? : Char → Option Char
  | '"' => some '"'
  | '\\' => some '\\'
  | 'n' => some '\n'
  | 'r' => some '\r'
  | 't' => some '\t'
  | _ => none

/-- Reads up to the closing quote: the value, and what follows the quote. -/
def readLiteralBody? : List Char → Option (List Char × List Char)
  | [] => none
  | '"' :: rest => some ([], rest)
  | '\\' :: e :: rest => do
    let c ← unescape? e
    let (value, rest) ← readLiteralBody? rest
    return (c :: value, rest)
  | '\n' :: _ => none
  | c :: rest => do
    let (value, rest) ← readLiteralBody? rest
    return (c :: value, rest)

def readLiteral? : List Char → Option (List Char × List Char)
  | '"' :: rest => readLiteralBody? rest
  | _ => none

/-! ### The two together -/

@[simp] theorem literalBody_nil : literalBody [] = [] := rfl

@[simp] theorem literalBody_cons (c : Char) (cs : List Char) :
    literalBody (c :: cs) = literalChar c ++ literalBody cs := rfl

theorem readLiteralBody?_literalBody (cs rest : List Char) :
    readLiteralBody? (literalBody cs ++ '"' :: rest) = some (cs, rest) := by
  induction cs with
  | nil => simp [readLiteralBody?]
  | cons c cs ih =>
    rw [literalBody_cons, List.append_assoc]
    fun_cases literalChar c <;>
      simp_all [readLiteralBody?, unescape?]

/-- What would end the line or move on in it is always written as an escape. -/
theorem mem_literalChar {c d : Char} (h : d ∈ literalChar c) :
    d ≠ '\n' ∧ d ≠ '\r' ∧ d ≠ '\t' := by
  fun_cases literalChar c <;> simp_all [literalChar]
  all_goals rcases h with rfl | rfl <;> decide

theorem mem_literal {s : String} {c : Char} (h : c ∈ (literal s).toList) :
    c ≠ '\n' ∧ c ≠ '\r' ∧ c ≠ '\t' := by
  rw [literal, String.toList_ofList, List.mem_append, List.mem_cons, List.mem_singleton] at h
  rcases h with (rfl | h) | rfl
  · decide
  · obtain ⟨d, -, hd⟩ := List.mem_flatMap.1 h
    exact mem_literalChar hd
  · decide

end BlockSketch.Text
