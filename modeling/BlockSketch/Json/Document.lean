import BlockSketch.Json.Token

/-!
Documents: what a JSON text says, before anyone has asked for a particular
record in it.  Members stand in the order of the text, and a name may occur
more than once.

Readers skip the parts they have no use for, and a part that is skipped only
needs to be well formed.  What makes a part unusable for a reader who looks at
it is therefore kept as a value of its own, `unreadable`: a number beyond the
doubles, a string with a lone surrogate, an object with such a name, and a
container that lies too deep.
-/

namespace BlockSketch.Json

/-- What a text says at one place. What is unreadable is well formed, but nothing
that a reader could use. -/
inductive Document
  | null
  | bool (b : Bool)
  | number (n : Number)
  | string (s : String)
  | array (items : List Document)
  | object (members : List (String × Document))
  | unreadable
deriving Inhabited

/-- How many containers may stand inside each other where a text is looked at. -/
def nestingLimit : Nat := 127

namespace Document

/-! ### Reading a text -/

/-- A container that has been opened: what it holds so far, the last part first,
and the name of the member that is being read. -/
inductive Frame
  | array (items : List Document)
  | object (members : List (Option String × Document)) (name : Option String)
deriving Inhabited

inductive Expected
  | value
  | valueOrClose
  | nameOrClose
  | name
  | colon
  | commaOrClose
deriving DecidableEq, Repr, Inhabited

/-- A text that has been read up to some word: the open containers from the
inside out, and the value once it is complete. -/
structure Reading where
  expected : Expected
  frames : List Frame
  value : Option Document
deriving Inhabited

namespace Reading

def start : Reading :=
  ⟨.value, [], none⟩

/-- A value is complete: it goes into the innermost open container. -/
def add (r : Reading) (d : Document) : Reading :=
  match r.frames with
  | [] => ⟨.commaOrClose, [], some d⟩
  | .array items :: frames => ⟨.commaOrClose, .array (d :: items) :: frames, r.value⟩
  | .object members name :: frames =>
    ⟨.commaOrClose, .object ((name, d) :: members) none :: frames, r.value⟩

/-- The members of an object, if all its names can be used. -/
def members? (members : List (Option String × Document)) : Option (List (String × Document)) :=
  members.reverse.mapM fun m => m.1.map fun name => (name, m.2)

def close : Frame → Document
  | .array items => .array items.reverse
  | .object members _ =>
    match members? members with
    | some members => .object members
    | none => .unreadable

/-- The innermost container ends.  It cannot be used if more containers are
open than the limit allows. -/
def leave (limit : Option Nat) (r : Reading) : Option Reading :=
  match r.frames with
  | [] => none
  | frame :: frames =>
    let fits := limit.all fun n => (r.frames.drop n).isEmpty
    some (add ⟨.commaOrClose, frames, r.value⟩ (if fits then close frame else .unreadable))

def scalar? : Token → Option Document
  | .null => some .null
  | .bool b => some (.bool b)
  | .number n => some (n.elim .unreadable .number)
  | .string s => some (s.elim .unreadable .string)
  | _ => none

def inArray (r : Reading) : Bool :=
  match r.frames with
  | .array _ :: _ => true
  | _ => false

def inObject (r : Reading) : Bool :=
  match r.frames with
  | .object _ _ :: _ => true
  | _ => false

def takeValue? (r : Reading) (token : Token) : Option Reading :=
  match token with
  | .openArray => some { r with expected := .valueOrClose, frames := .array [] :: r.frames }
  | .openObject => some { r with expected := .nameOrClose, frames := .object [] none :: r.frames }
  | token => (scalar? token).map r.add

def takeName? (r : Reading) (token : Token) : Option Reading :=
  match token, r.frames with
  | .string s, .object members _ :: frames =>
    some { r with expected := .colon, frames := .object members s :: frames }
  | _, _ => none

def step? (limit : Option Nat) (r : Reading) (token : Token) : Option Reading :=
  match r.expected with
  | .value => r.takeValue? token
  | .valueOrClose => if token = .closeArray then r.leave limit else r.takeValue? token
  | .nameOrClose => if token = .closeObject then r.leave limit else r.takeName? token
  | .name => r.takeName? token
  | .colon => if token = .colon then some { r with expected := .value } else none
  | .commaOrClose =>
    if token = .closeArray ∧ r.inArray then r.leave limit
    else if token = .closeObject ∧ r.inObject then r.leave limit
    else if token = .comma ∧ r.inArray then some { r with expected := .value }
    else if token = .comma ∧ r.inObject then some { r with expected := .name }
    else none

def run? (limit : Option Nat) (r : Reading) (tokens : List Token) : Option Reading :=
  tokens.foldlM (step? limit) r

end Reading

/-- The document that some words write, containers below the limit being
unreadable. -/
def ofTokens? (limit : Option Nat) (tokens : List Token) : Option Document := do
  (← Reading.start.run? limit tokens).value

/-- The document of a text, with containers beyond `limit` unreadable. -/
def parse? (limit : Option Nat) (text : String) : Option Document := do
  ofTokens? limit (← tokens? text.toList)

def ofText? (text : String) : Option Document :=
  parse? (some nestingLimit) text

/-! ### Documents and values

A value is a document in which everything can be used; a document whose parts
can all be used has a value, in which the last of several members of one name
counts and members are in increasing order. -/

mutual

def ofValue : Json → Document
  | .null => .null
  | .bool b => .bool b
  | .number n => .number n
  | .string s => .string s
  | .array items => .array (ofItems items)
  | .object members => .object (ofMembers members)

def ofItems : List Json → List Document
  | [] => []
  | item :: rest => ofValue item :: ofItems rest

def ofMembers : List (String × Json) → List (String × Document)
  | [] => []
  | (name, value) :: rest => (name, ofValue value) :: ofMembers rest

end

mutual

def toValue? : Document → Option Json
  | .null => some .null
  | .bool b => some (.bool b)
  | .number n => some (.number n)
  | .string s => some (.string s)
  | .array items => (toItems? items).map .array
  | .object members => (toMembers? members).map fun members => .object (Entries.sorted members)
  | .unreadable => none

def toItems? : List Document → Option (List Json)
  | [] => some []
  | item :: rest => do
    let item ← toValue? item
    return item :: (← toItems? rest)

def toMembers? : List (String × Document) → Option (List (String × Json))
  | [] => some []
  | (name, value) :: rest => do
    let value ← toValue? value
    return (name, value) :: (← toMembers? rest)

end

end Document

/-- The value of a text of any nesting. -/
def parse? (text : String) : Option Json := do
  (← Document.parse? none text).toValue?

end BlockSketch.Json
