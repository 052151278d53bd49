import BlockSketch.Entries
import BlockSketch.Json.Double

/-!
JSON values.  Snapshots and project records are exchanged as JSON, and a project
keeps its snapshot as a value that it does not look into.  Whole numbers are
exact in the range of sixty-four bits, with or without a sign; every other
number is a double.  An object lists its members in order: a value proper has
them in increasing order of their names, while a record that is about to be
written has them in the order of its declaration.
-/

namespace BlockSketch

namespace Json

/-- A number of a document: a whole one up to 2^64 - 1, the negative one -(n + 1)
down to -2^63, or any other. -/
inductive Number
  | nonneg (n : UInt64)
  | negSucc (n : Fin 0x8000000000000000)
  | real (d : Double)
deriving DecidableEq, Repr, Inhabited

namespace Number

def ofNat? (n : Nat) : Option Number :=
  if n < UInt64.size then some (.nonneg (UInt64.ofNat n)) else none

def ofNegative? : Nat → Option Number
  | 0 => none
  | n + 1 => if h : n < 0x8000000000000000 then some (.negSucc ⟨n, h⟩) else none

def toInt? : Number → Option Int
  | .nonneg n => some n.toNat
  | .negSucc n => some (Int.negSucc n)
  | .real _ => none

def text : Number → String
  | .nonneg n => toString n.toNat
  | .negSucc n => "-" ++ toString (n.val + 1)
  | .real d => d.text

end Number

end Json

open Json in
inductive Json
  | null
  | bool (b : Bool)
  | number (n : Number)
  | string (s : String)
  | array (items : List Json)
  | object (members : List (String × Json))
deriving Inhabited

namespace Json

def ofUInt64 (n : UInt64) : Json :=
  .number (.nonneg n)

/-- A natural number; those beyond sixty-four bits do not occur. -/
def ofNat (n : Nat) : Json :=
  .ofUInt64 (UInt64.ofNat n)

def ofInt32 (n : Int32) : Json :=
  match n.toInt with
  | .ofNat m => .ofNat m
  | .negSucc m => .number (.negSucc (Fin.ofNat _ m))

def ofOption {α : Type} (f : α → Json) : Option α → Json
  | none => .null
  | some a => f a

/-! ### Order of members -/

mutual

/-- The same value with the members of every object in increasing order. -/
def sorted : Json → Json
  | .null => .null
  | .bool b => .bool b
  | .number n => .number n
  | .string s => .string s
  | .array items => .array (sortedItems items)
  | .object members => .object (Entries.sorted (sortedMembers members))

def sortedItems : List Json → List Json
  | [] => []
  | item :: rest => sorted item :: sortedItems rest

def sortedMembers : List (String × Json) → List (String × Json)
  | [] => []
  | (name, value) :: rest => (name, sorted value) :: sortedMembers rest

end

theorem sortedMembers_eq_map (members : List (String × Json)) :
    sortedMembers members = members.map fun m => (m.1, sorted m.2) := by
  induction members with
  | nil => rfl
  | cons m rest ih => simp [sortedMembers, ih]

end Json

end BlockSketch
