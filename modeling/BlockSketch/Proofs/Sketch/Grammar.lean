import BlockSketch.Text.Literal
import BlockSketch.Text.Number
import Mathlib.Data.List.Basic

/-!
Expressions of the generated language as a compiler reads them. There are numbers,
string literals, readings of a pin, comparisons and parentheses. Comparisons by size
bind more tightly than tests for equality, and both sorts associate to the left; the
productions of `Derives` are those of the language, one for each way to write an
expression, so that a level of the grammar is what its order is to a slot.

The reader takes one token at a time. It remembers what stands before the operand
that comes next: the left operands that wait for their right ones, and the same for
every parenthesis that is open. It reads exactly what the grammar derives
(`Reader.read?_start`), and so no text has two readings.
-/

namespace BlockSketch.Sketch

/-! ### Expressions -/

inductive Operator
  | equal | notEqual | less | atMost | greater | atLeast
deriving DecidableEq, Repr

namespace Operator

def text : Operator → String
  | .equal => "=="
  | .notEqual => "!="
  | .less => "<"
  | .atMost => "<="
  | .greater => ">"
  | .atLeast => ">="

def all : List Operator :=
  [.equal, .notEqual, .less, .atMost, .greater, .atLeast]

def ofText? (s : String) : Option Operator :=
  all.find? fun op => op.text == s

theorem ofText?_text (op : Operator) : ofText? op.text = some op := by
  cases op <;> decide

/-- A test for equality, which binds less tightly than a comparison by size. -/
def isEquality : Operator → Bool
  | .equal | .notEqual => true
  | _ => false

end Operator

inductive Reading
  | digital | analog
deriving DecidableEq, Repr

namespace Reading

def name : Reading → String
  | .digital => "digitalRead"
  | .analog => "analogRead"

def ofName? (name : String) : Option Reading :=
  if name = "digitalRead" then some .digital
  else if name = "analogRead" then some .analog
  else none

theorem ofName?_eq_some {name : String} {reading : Reading} :
    ofName? name = some reading ↔ reading.name = name := by
  unfold ofName?
  cases reading <;> grind [Reading.name]

end Reading

inductive Expression
  | number (n : UInt64)
  | text (s : String)
  | reading (reading : Reading) (pin : String)
  | comparison (operator : Operator) (left right : Expression)
deriving DecidableEq, Repr

/-! ### Tokens -/

/-- What an expression is written with. A word is a name or a number, and a
literal is given by its value. -/
inductive Token
  | word (s : String)
  | literal (s : String)
  | operator (operator : Operator)
  | opening
  | closing
deriving DecidableEq, Repr

namespace Token

def isWordChar (c : Char) : Bool :=
  c.isAlphanum || c == '_'

def isBlank (c : Char) : Bool :=
  c == ' ' || c == '\t' || c == '\n' || c == '\x0b' || c == '\x0c' || c == '\r'

/-- The longest token at the front of a text, and what comes after it. -/
def first? : List Char → Option (Token × List Char)
  | '(' :: rest => some (.opening, rest)
  | ')' :: rest => some (.closing, rest)
  | '=' :: '=' :: rest => some (.operator .equal, rest)
  | '!' :: '=' :: rest => some (.operator .notEqual, rest)
  | '<' :: '=' :: rest => some (.operator .atMost, rest)
  | '<' :: rest => some (.operator .less, rest)
  | '>' :: '=' :: rest => some (.operator .atLeast, rest)
  | '>' :: rest => some (.operator .greater, rest)
  | '"' :: rest =>
    (Text.readLiteralBody? rest).map fun (value, rest) => (.literal (String.ofList value), rest)
  | c :: rest =>
    if isWordChar c then
      some (.word (String.ofList (c :: rest.takeWhile isWordChar)), rest.dropWhile isWordChar)
    else none
  | [] => none

theorem length_readLiteralBody? {cs value rest : List Char}
    (h : Text.readLiteralBody? cs = some (value, rest)) : rest.length < cs.length := by
  fun_induction Text.readLiteralBody? cs generalizing value rest with
  | case1 => cases h
  | case2 => grind
  | case3 e cs ih =>
    simp only [Option.bind_eq_bind, Option.bind_eq_some_iff] at h
    grind
  | case4 => cases h
  | case5 c cs _ _ _ ih =>
    simp only [Option.bind_eq_bind, Option.bind_eq_some_iff] at h
    grind

theorem length_first? {cs rest : List Char} {t : Token} (h : first? cs = some (t, rest)) :
    rest.length < cs.length := by
  unfold first? at h
  split at h
  case h_9 =>
    obtain ⟨⟨value, after⟩, hread, heq⟩ := Option.map_eq_some_iff.1 h
    cases heq
    exact Nat.lt_succ_of_lt (length_readLiteralBody? hread)
  case h_10 c cs _ _ _ _ _ _ _ _ _ =>
    split at h <;> cases h
    exact Nat.lt_succ_of_le (List.dropWhile_suffix _).length_le
  all_goals
    cases h
  all_goals
    simp only [List.length_cons]
    omega

def ofChars? (cs : List Char) : Option (List Token) :=
  match cs with
  | [] => some []
  | c :: rest =>
    if isBlank c then ofChars? rest
    else
      match _h : first? (c :: rest) with
      | none => none
      | some (t, after) => (ofChars? after).map (t :: ·)
termination_by cs.length
decreasing_by
  · simp
  · exact length_first? _h

end Token

/-! ### The grammar -/

/-- A number as it is written in decimal; a zero in front would make it octal. -/
def decimal? (s : String) : Option UInt64 :=
  match s.toList with
  | ['0'] => some 0
  | '0' :: _ => none
  | cs => Text.word? cs

/-- The levels of the grammar, from the tightest to the loosest. -/
inductive Level
  | primary | relational | equality

/-- The tokens are an expression of the level. -/
inductive Derives : Level → List Token → Expression → Prop
  | number {s : String} {n : UInt64} (h : decimal? s = some n) :
      Derives .primary [.word s] (.number n)
  | literal (s : String) : Derives .primary [.literal s] (.text s)
  | reading (reading : Reading) (pin : String) :
      Derives .primary [.word reading.name, .opening, .word pin, .closing] (.reading reading pin)
  | parenthesized {ts : List Token} {e : Expression} (h : Derives .equality ts e) :
      Derives .primary (.opening :: ts ++ [.closing]) e
  | ofPrimary {ts : List Token} {e : Expression} (h : Derives .primary ts e) :
      Derives .relational ts e
  | size {ts us : List Token} {a b : Expression} {op : Operator} (ha : Derives .relational ts a)
      (hop : op.isEquality = false) (hb : Derives .primary us b) :
      Derives .relational (ts ++ .operator op :: us) (.comparison op a b)
  | ofRelational {ts : List Token} {e : Expression} (h : Derives .relational ts e) :
      Derives .equality ts e
  | equality {ts us : List Token} {a b : Expression} {op : Operator} (ha : Derives .equality ts a)
      (hop : op.isEquality = true) (hb : Derives .relational us b) :
      Derives .equality (ts ++ .operator op :: us) (.comparison op a b)

/-! ### The reader -/

/-- A left operand and its operator, if there are such. -/
abbrev Waiting := Option (Expression × Operator)

def Waiting.complete (left : Waiting) (e : Expression) : Expression :=
  match left with
  | none => e
  | some (a, op) => .comparison op a e

/-- What stands before an operand, up to the parenthesis around it. -/
structure Before where
  equality : Waiting
  relational : Waiting

namespace Before

def nothing : Before := ⟨none, none⟩

/-- The relational expression that ends with the operand. -/
def size (before : Before) (e : Expression) : Expression :=
  before.relational.complete e

/-- The whole expression that ends with the operand. -/
def whole (before : Before) (e : Expression) : Expression :=
  before.equality.complete (before.size e)

def next (before : Before) (e : Expression) (op : Operator) : Before :=
  if op.isEquality then ⟨some (before.whole e, op), none⟩
  else ⟨before.equality, some (before.size e, op)⟩

end Before

/-- How far the reader is with an operand: before it, after the name of a
function, after the parenthesis that follows the name, or behind the operand. -/
inductive Progress
  | operand
  | call (reading : Reading)
  | argument (reading : Reading)
  | closing (reading : Reading) (pin : String)
  | operator (e : Expression)

/-- A reader of tokens: what stands before each open parenthesis, the innermost
first, and what stands before the operand that is being read. -/
structure Reader where
  around : List Before
  before : Before
  progress : Progress

namespace Reader

def start : Reader := ⟨[], .nothing, .operand⟩

def step? : Reader → Token → Option Reader
  | ⟨around, before, .operand⟩, .word s =>
    match decimal? s with
    | some n => some ⟨around, before, .operator (.number n)⟩
    | none => (Reading.ofName? s).map fun reading => ⟨around, before, .call reading⟩
  | ⟨around, before, .operand⟩, .literal s => some ⟨around, before, .operator (.text s)⟩
  | ⟨around, before, .operand⟩, .opening => some ⟨before :: around, .nothing, .operand⟩
  | ⟨around, before, .call reading⟩, .opening => some ⟨around, before, .argument reading⟩
  | ⟨around, before, .argument reading⟩, .word pin => some ⟨around, before, .closing reading pin⟩
  | ⟨around, before, .closing reading pin⟩, .closing =>
    some ⟨around, before, .operator (.reading reading pin)⟩
  | ⟨around, before, .operator e⟩, .operator op => some ⟨around, before.next e op, .operand⟩
  | ⟨outer :: around, before, .operator e⟩, .closing =>
    some ⟨around, outer, .operator (before.whole e)⟩
  | _, _ => none

def finish? : Reader → Option Expression
  | ⟨[], before, .operator e⟩ => some (before.whole e)
  | _ => none

def read? (r : Reader) (ts : List Token) : Option Expression :=
  (ts.foldlM step? r).bind finish?

@[simp] theorem read?_nil (r : Reader) : r.read? [] = r.finish? := rfl

@[simp] theorem read?_cons (r : Reader) (t : Token) (ts : List Token) :
    r.read? (t :: ts) = (r.step? t).bind fun r => r.read? ts := by
  rw [read?, List.foldlM_cons]
  cases r.step? t <;> rfl

end Reader

def Expression.ofText? (s : String) : Option Expression := do
  Reader.start.read? (← Token.ofChars? s.toList)

namespace Reader

/-! ### What is derived is read -/

variable {r r' : Reader} {around : List Before} {before : Before} {ts : List Token}
  {e : Expression}

/-- A comparison by size that is complete is an operand like any other. -/
theorem read?_size (left right : Waiting) (ts : List Token) :
    read? ⟨around, ⟨left, right⟩, .operator e⟩ ts =
      read? ⟨around, ⟨left, none⟩, .operator (right.complete e)⟩ ts := by
  cases ts with
  | nil => cases around <;> rfl
  | cons t rest => cases t <;> cases around <;> rfl

/-- A test for equality that is complete is an operand as well, unless a comparison by
size comes next and takes the right side away from it. -/
theorem read?_equality (left : Waiting)
    (h : ∀ op rest, ts = .operator op :: rest → op.isEquality = true) :
    read? ⟨around, ⟨left, none⟩, .operator e⟩ ts =
      read? ⟨around, .nothing, .operator (left.complete e)⟩ ts := by
  cases ts with
  | nil => cases around <;> rfl
  | cons t rest =>
    cases t with
    | operator op =>
      have hop := h op rest rfl
      simp only [read?_cons, step?, Before.next, hop, if_true]
      rfl
    | _ => cases around <;> rfl

/-- What reading an expression of some level comes to. -/
def Takes : Level → List Token → Expression → Prop
  | .primary, ts, e => ∀ around before rest,
    read? ⟨around, before, .operand⟩ (ts ++ rest) = read? ⟨around, before, .operator e⟩ rest
  | .relational, ts, e => ∀ around left rest,
    read? ⟨around, ⟨left, none⟩, .operand⟩ (ts ++ rest) =
      read? ⟨around, ⟨left, none⟩, .operator e⟩ rest
  | .equality, ts, e => ∀ around rest,
    (∀ op more, rest = .operator op :: more → op.isEquality = true) →
      read? ⟨around, .nothing, .operand⟩ (ts ++ rest) =
        read? ⟨around, .nothing, .operator e⟩ rest

theorem decimal?_name (reading : Reading) : decimal? reading.name = none := by
  cases reading <;> decide +kernel

theorem takes_of_derives {level : Level} (h : Derives level ts e) : Takes level ts e := by
  induction h with
  | number hn =>
    intro around before rest
    rw [List.singleton_append, read?_cons, step?, hn]
    rfl
  | literal s => exact fun _ _ _ => rfl
  | reading reading pin =>
    intro around before rest
    rw [List.cons_append, read?_cons, step?, decimal?_name, Reading.ofName?_eq_some.2 rfl]
    rfl
  | @parenthesized ts e _ ih =>
    intro around before rest
    have hinside : ∀ op more, Token.closing :: rest = .operator op :: more →
      op.isEquality = true := nofun
    rw [List.append_assoc, List.cons_append, read?_cons]
    exact ih (before :: around) (.closing :: rest) hinside
  | ofPrimary _ ih => exact fun _ _ _ => ih _ _ _
  | @size ts us a b op _ hop _ iha ihb =>
    intro around left rest
    rw [List.append_assoc, List.cons_append, iha, read?_cons, step?, Before.next, hop]
    exact (ihb around ⟨left, some (a, op)⟩ rest).trans (read?_size _ _ rest)
  | ofRelational _ ih => exact fun _ _ _ => ih _ _ _
  | @equality ts us a b op _ hop _ iha ihb =>
    intro around rest hrest
    have hnext : ∀ op' more, Token.operator op :: (us ++ rest) = .operator op' :: more →
        op'.isEquality = true := by
      rintro _ _ ⟨⟩
      exact hop
    rw [List.append_assoc, List.cons_append, iha _ _ hnext, read?_cons, step?, Before.next, hop]
    exact (ihb around (some (a, op)) rest).trans (read?_equality _ hrest)

/-! ### What is read is derived -/

/-- The tokens are a left operand of the level and its operator. -/
def Stands (level : Level) (equality : Bool) (ts : List Token) : Waiting → Prop
  | none => ts = []
  | some (a, op) => op.isEquality = equality ∧ ∃ us, Derives level us a ∧ ts = us ++ [.operator op]

/-- The tokens are what stands before an operand. -/
def Precedes (before : Before) (ts : List Token) : Prop :=
  ∃ us vs, Stands .equality true us before.equality ∧
    Stands .relational false vs before.relational ∧ ts = us ++ vs

def Encloses : List Before → List Token → Prop
  | [], ts => ts = []
  | before :: around, ts =>
    ∃ us vs, Encloses around us ∧ Precedes before vs ∧ ts = us ++ vs ++ [.opening]

def Begins (ts : List Token) : Progress → Prop
  | .operand => ts = []
  | .call reading => ts = [.word reading.name]
  | .argument reading => ts = [.word reading.name, .opening]
  | .closing reading pin => ts = [.word reading.name, .opening, .word pin]
  | .operator e => Derives .primary ts e

/-- The tokens are what has been read. -/
inductive Accounts : Reader → List Token → Prop
  | mk {around : List Before} {before : Before} {progress : Progress} (us vs ts : List Token)
      (haround : Encloses around us) (hbefore : Precedes before vs) (hbegins : Begins ts progress) :
      Accounts ⟨around, before, progress⟩ (us ++ vs ++ ts)

theorem derives_size {us : List Token} (h : Stands .relational false us before.relational)
    (he : Derives .primary ts e) : Derives .relational (us ++ ts) (before.size e) := by
  obtain ⟨_, _ | ⟨a, op⟩⟩ := before
  · obtain rfl := h
    exact .ofPrimary he
  · obtain ⟨hop, us, ha, rfl⟩ := h
    rw [List.append_assoc]
    exact .size ha hop he

theorem derives_whole {us : List Token} (h : Precedes before us) (he : Derives .primary ts e) :
    Derives .equality (us ++ ts) (before.whole e) := by
  obtain ⟨us, vs, hequality, hrelational, rfl⟩ := h
  have hsize := derives_size hrelational he
  obtain ⟨_ | ⟨a, op⟩, right⟩ := before
  · obtain rfl := hequality
    exact .ofRelational hsize
  · obtain ⟨hop, us, ha, rfl⟩ := hequality
    rw [List.append_assoc, List.append_assoc]
    exact .equality ha hop hsize

theorem precedes_nothing : Precedes .nothing [] :=
  ⟨[], [], rfl, rfl, rfl⟩

theorem precedes_next {us : List Token} (op : Operator) (h : Precedes before us)
    (he : Derives .primary ts e) : Precedes (before.next e op) (us ++ ts ++ [.operator op]) := by
  unfold Before.next
  split
  next hop => exact ⟨_, [], ⟨hop, _, derives_whole h he, rfl⟩, rfl, (List.append_nil _).symm⟩
  next hop =>
    obtain ⟨us, vs, hequality, hrelational, rfl⟩ := h
    exact ⟨us, _, hequality, ⟨by simpa using hop, _, derives_size hrelational he, rfl⟩, by simp⟩

theorem accounts_start : Accounts start [] :=
  .mk [] [] [] rfl precedes_nothing rfl

section Step

variable {us vs : List Token} (hbefore : Precedes before vs)

include hbefore

/-- Within an operand nothing changes but what has been read of it. -/
theorem accounts_within (haround : Encloses around us) {t : Token} {progress : Progress}
    (hmore : Begins (ts ++ [t]) progress) :
    Accounts ⟨around, before, progress⟩ (us ++ vs ++ ts ++ [t]) := by
  rw [List.append_assoc]
  exact .mk us vs _ haround hbefore hmore

theorem accounts_opening (haround : Encloses around us) :
    Accounts ⟨before :: around, .nothing, .operand⟩ (us ++ vs ++ [.opening]) := by
  have hinside : Accounts ⟨before :: around, .nothing, .operand⟩
      (us ++ vs ++ [.opening] ++ [] ++ []) :=
    .mk _ _ _ ⟨us, vs, haround, hbefore, rfl⟩ precedes_nothing rfl
  simpa using hinside

theorem accounts_operator (haround : Encloses around us) (he : Derives .primary ts e)
    (op : Operator) :
    Accounts ⟨around, before.next e op, .operand⟩ (us ++ vs ++ ts ++ [.operator op]) := by
  have hnext : Accounts ⟨around, before.next e op, .operand⟩
      (us ++ (vs ++ ts ++ [.operator op]) ++ []) :=
    .mk us _ _ haround (precedes_next op hbefore he) rfl
  simpa using hnext

/-- What was read since the parenthesis is one operand of what stands around it. -/
theorem accounts_closing {outer : Before} (haround : Encloses (outer :: around) us)
    (he : Derives .primary ts e) :
    Accounts ⟨around, outer, .operator (before.whole e)⟩ (us ++ vs ++ ts ++ [.closing]) := by
  obtain ⟨us, inner, haround, houter, rfl⟩ := haround
  have hoperand := Derives.parenthesized (derives_whole hbefore he)
  have houtside : Accounts ⟨around, outer, .operator (before.whole e)⟩
      (us ++ inner ++ (.opening :: (vs ++ ts) ++ [.closing])) :=
    .mk us inner _ haround houter hoperand
  simpa using houtside

end Step

theorem Accounts.step {t : Token} (h : r.Accounts ts) (hstep : r.step? t = some r') :
    r'.Accounts (ts ++ [t]) := by
  obtain ⟨us, vs, ts, haround, hbefore, hbegins⟩ := h
  rename_i around before progress
  cases progress with
  | operand =>
    obtain rfl := hbegins
    cases t with
    | word s =>
      rw [step?] at hstep
      split at hstep
      next n hn =>
        cases hstep
        exact accounts_within hbefore haround (.number hn)
      next =>
        obtain ⟨reading, hname, rfl⟩ := Option.map_eq_some_iff.1 hstep
        obtain rfl := Reading.ofName?_eq_some.1 hname
        exact accounts_within hbefore haround rfl
    | literal s =>
      cases hstep
      exact accounts_within hbefore haround (.literal s)
    | opening =>
      cases hstep
      rw [List.append_nil]
      exact accounts_opening hbefore haround
    | operator | closing => cases hstep
  | call reading =>
    obtain rfl := hbegins
    cases t with
    | opening =>
      cases hstep
      exact accounts_within hbefore haround rfl
    | _ => cases hstep
  | argument reading =>
    obtain rfl := hbegins
    cases t with
    | word pin =>
      cases hstep
      exact accounts_within hbefore haround rfl
    | _ => cases hstep
  | closing reading pin =>
    obtain rfl := hbegins
    cases t with
    | closing =>
      cases hstep
      exact accounts_within hbefore haround (.reading reading pin)
    | _ => cases hstep
  | operator e =>
    cases t with
    | operator op =>
      cases hstep
      exact accounts_operator hbefore haround hbegins op
    | closing =>
      cases around with
      | nil => cases hstep
      | cons outer around =>
        cases hstep
        exact accounts_closing hbefore haround hbegins
    | _ => cases around <;> cases hstep

theorem Accounts.derives {us : List Token} (h : r.Accounts ts) (hread : r.read? us = some e) :
    Derives .equality (ts ++ us) e := by
  induction us generalizing r ts with
  | nil =>
    rw [read?_nil] at hread
    unfold finish? at hread
    split at hread
    next =>
      cases hread
      obtain ⟨us, vs, ts, haround, hbefore, hbegins⟩ := h
      obtain rfl := haround
      simpa using derives_whole hbefore hbegins
    next => cases hread
  | cons t us ih =>
    rw [read?_cons] at hread
    obtain ⟨r', hstep, hread⟩ := Option.bind_eq_some_iff.1 hread
    simpa using ih (h.step hstep) hread

/-- The reader reads what the grammar derives, and nothing else. -/
theorem read?_start : start.read? ts = some e ↔ Derives .equality ts e := by
  constructor
  · exact accounts_start.derives
  · intro h
    have htakes := takes_of_derives h [] [] nofun
    rwa [List.append_nil] at htakes

end Reader

/-- No tokens are two different expressions. -/
theorem Derives.unique {ts : List Token} {a b : Expression} (ha : Derives .equality ts a)
    (hb : Derives .equality ts b) : a = b :=
  Option.some_inj.1 ((Reader.read?_start.2 ha).symm.trans (Reader.read?_start.2 hb))

theorem Expression.ofText?_eq_some {s : String} {e : Expression} :
    ofText? s = some e ↔ ∃ ts, Token.ofChars? s.toList = some ts ∧ Derives .equality ts e := by
  simp only [ofText?, Option.bind_eq_bind, Option.bind_eq_some_iff, Reader.read?_start]

/-- Comparisons by size come first, and each sort is read from the left. -/
example : Expression.ofText? "1<2 == (0!=3) != \"<\"" =
    some (.comparison .notEqual
      (.comparison .equal (.comparison .less (.number 1) (.number 2))
        (.comparison .notEqual (.number 0) (.number 3))) (.text "<")) := by
  cbv

end BlockSketch.Sketch
