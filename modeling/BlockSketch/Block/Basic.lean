import BlockSketch.Entries

/-!
Blocks and what they hold.  A program is a graph of blocks that know each other
by number; each block keeps the values of its fields.  Two kinds of block are
special in every program: the one for what happens when the board starts, and
the one for what is then repeated forever.
-/

namespace BlockSketch

/-- The number of a block, given at its creation and never given again. -/
structure BlockId where
  index : Nat
deriving DecidableEq, Repr, Inhabited

namespace BlockId

def text (id : BlockId) : String :=
  "#" ++ toString id.index

end BlockId

/-- The two blocks that every program has. -/
inductive RootKind
  | setup
  | loop
deriving DecidableEq, Repr, Inhabited

namespace RootKind

def all : List RootKind := [.setup, .loop]

def kindName : RootKind → String
  | .setup => "root_setup"
  | .loop => "root_loop"

def ofKindName? (kind : String) : Option RootKind :=
  all.find? fun root => root.kindName == kind

theorem ofKindName?_kindName (root : RootKind) : ofKindName? root.kindName = some root := by
  cases root <;> decide

theorem ofKindName?_eq_some {kind : String} {root : RootKind} :
    ofKindName? kind = some root ↔ kind = root.kindName := by
  constructor
  · intro h
    have := List.find?_some h
    exact (by simpa using this : root.kindName = kind).symm
  · rintro rfl
    exact ofKindName?_kindName root

end RootKind

inductive FieldValue
  | number (n : UInt64)
  | text (s : String)
deriving DecidableEq, Repr, Inhabited

namespace FieldValue

def number? : FieldValue → Option UInt64
  | .number n => some n
  | .text _ => none

def display : FieldValue → String
  | .number n => toString n.toNat
  | .text s => s

@[simp] theorem display_text (s : String) : (FieldValue.text s).display = s := rfl

end FieldValue

end BlockSketch
