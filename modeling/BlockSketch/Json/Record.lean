import BlockSketch.Json.Document

/-!
Records in documents.  A record is written as an object, in which unknown
members are skipped and a known one must not come twice, or as an array that
gives the fields in the order of their declaration.  An array may stop early,
but must not go on after the last field.
-/

namespace BlockSketch.Json

/-- The fields of a record as found in a document, in the order of their
declaration, and whether they were given by position; `none` where one is missing. -/
structure Record where
  positional : Bool
  cells : List (Option Document)
deriving Inhabited

namespace Document

def atMostOnce (members : List (String × Document)) (name : String) : Bool :=
  members.countP (fun m => m.1 == name) ≤ 1

def record? (names : List String) : Document → Option Record
  | .object members =>
    if names.all (atMostOnce members) then
      some ⟨false, names.map fun name => members.lookup name⟩
    else none
  | .array items =>
    if items.length ≤ names.length then
      some ⟨true, items.map some ++ List.replicate (names.length - items.length) none⟩
    else none
  | _ => none

def string? : Document → Option String
  | .string s => some s
  | _ => none

def uint64? : Document → Option UInt64
  | .number (.nonneg n) => some n
  | _ => none

def uint32? (d : Document) : Option UInt32 := do
  let n ← d.uint64?
  if n.toNat < UInt32.size then some (UInt32.ofNat n.toNat) else none

def int32? : Document → Option Int32
  | .number n => do
    let i ← n.toInt?
    if Int32.minValue.toInt ≤ i ∧ i ≤ Int32.maxValue.toInt then some (Int32.ofInt i) else none
  | _ => none

def orNull? {α : Type} (read : Document → Option α) : Document → Option (Option α)
  | .null => some none
  | d => (read d).map some

def items? : Document → Option (List Document)
  | .array items => some items
  | _ => none

def members? : Document → Option (List (String × Document))
  | .object members => some members
  | _ => none

end Document

def required? {α : Type} (read : Document → Option α) : Option Document → Option α
  | some d => read d
  | none => none

/-- A field that stands for `missing` when it is not there. -/
def defaulted? {α : Type} (read : Document → Option α) (missing : α) : Option Document → Option α
  | some d => read d
  | none => some missing

end BlockSketch.Json
