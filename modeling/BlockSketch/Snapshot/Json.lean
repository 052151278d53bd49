import BlockSketch.Json.Printer
import BlockSketch.Json.Record
import BlockSketch.Snapshot.Basic

/-!
Snapshots as JSON.  Fields are written in the order of their declaration, and
what is empty in a block is not written.  Version, board, stacks and places
have defaults for documents that leave them out.  A snapshot reads the same
from a text and from a value, except that a value has its members sorted.
-/

namespace BlockSketch

open Json

/-! ### Writing -/

def FieldValue.toJson : FieldValue → Json
  | .number n => .ofUInt64 n
  | .text s => .string s

namespace StoredBlock

/-- A member that is left out when there is nothing in it. -/
def memberUnlessEmpty (name : String) : List (String × Json) → List (String × Json)
  | [] => []
  | members => [(name, .object members)]

mutual

def toJson : StoredBlock → Json
  | ⟨kind, fields, statements, values⟩ =>
    .object (("type", .string kind) ::
      (memberUnlessEmpty "fields" (fields.map fun f => (f.1, f.2.toJson)) ++
        memberUnlessEmpty "statements" (slotsToJson statements) ++
        memberUnlessEmpty "values" (valuesToJson values)))

def chainToJson : List StoredBlock → List Json
  | [] => []
  | b :: rest => b.toJson :: chainToJson rest

def slotsToJson : List (String × List StoredBlock) → List (String × Json)
  | [] => []
  | (slot, chain) :: rest => (slot, .array (chainToJson chain)) :: slotsToJson rest

def valuesToJson : List (String × StoredBlock) → List (String × Json)
  | [] => []
  | (slot, b) :: rest => (slot, b.toJson) :: valuesToJson rest

end

end StoredBlock

def StoredStack.toJson (stack : StoredStack) : Json :=
  .object [("x", .ofInt32 stack.x), ("y", .ofInt32 stack.y),
    ("blocks", .array (StoredBlock.chainToJson stack.blocks))]

namespace Snapshot

def toJson (s : Snapshot) : Json :=
  .object [("version", .ofNat s.version.toNat), ("board", .string s.board),
    ("stacks", .array (s.canvas.map StoredStack.toJson))]

/-- The text in which a snapshot is stored. -/
def text (s : Snapshot) : String :=
  s.toJson.compact

def prettyText (s : Snapshot) : String :=
  s.toJson.pretty

/-- The snapshot as a value. -/
def toValue (s : Snapshot) : Json :=
  s.toJson.sorted

end Snapshot

/-! ### Reading -/

/-- A field value is a whole number or a string. -/
def FieldValue.ofDocument? : Document → Option FieldValue
  | .number (.nonneg n) => some (.number n)
  | .string s => some (.text s)
  | _ => none

def FieldValue.mapOfDocument? (d : Document) : Option (List (String × FieldValue)) := do
  let pairs ← (← d.members?).mapM fun m => (FieldValue.ofDocument? m.2).map fun v => (m.1, v)
  return Entries.ofList pairs

namespace StoredBlock

/-- The fields of a block, in the order of their declaration. -/
def names : List String := ["type", "fields", "statements", "values"]

def assemble? (kind : Option Document) (fields : Option Document)
    (statements : Option (List (String × List StoredBlock)))
    (values : Option (List (String × StoredBlock))) : Option StoredBlock := do
  let kind ← required? Document.string? kind
  let fields ← defaulted? FieldValue.mapOfDocument? [] fields
  return ⟨kind, fields, ← statements, ← values⟩

mutual

def ofDocument? : Document → Option StoredBlock
  | .object members =>
    if names.all (Document.atMostOnce members) then
      assemble? (members.lookup "type") (members.lookup "fields") (slotsIn? members)
        (valuesIn? members)
    else none
  | .array [kind] => assemble? kind none (some []) (some [])
  | .array [kind, fields] => assemble? kind fields (some []) (some [])
  | .array [kind, fields, statements] => assemble? kind fields (slots? statements) (some [])
  | .array [kind, fields, statements, values] =>
    assemble? kind fields (slots? statements) (values? values)
  | _ => none

def chain? : List Document → Option (List StoredBlock)
  | [] => some []
  | d :: rest => do
    let b ← ofDocument? d
    return b :: (← chain? rest)

def chainOf? : Document → Option (List StoredBlock)
  | .array items => chain? items
  | _ => none

def slots? : Document → Option (List (String × List StoredBlock))
  | .object members => (slotMembers? members).map Entries.ofList
  | _ => none

def slotMembers? : List (String × Document) → Option (List (String × List StoredBlock))
  | [] => some []
  | (slot, d) :: rest => do
    let chain ← chainOf? d
    return (slot, chain) :: (← slotMembers? rest)

def slotsIn? : List (String × Document) → Option (List (String × List StoredBlock))
  | [] => some []
  | (name, d) :: rest => if name = "statements" then slots? d else slotsIn? rest

def values? : Document → Option (List (String × StoredBlock))
  | .object members => (valueMembers? members).map Entries.ofList
  | _ => none

def valueMembers? : List (String × Document) → Option (List (String × StoredBlock))
  | [] => some []
  | (slot, d) :: rest => do
    let b ← ofDocument? d
    return (slot, b) :: (← valueMembers? rest)

def valuesIn? : List (String × Document) → Option (List (String × StoredBlock))
  | [] => some []
  | (name, d) :: rest => if name = "values" then values? d else valuesIn? rest

end

end StoredBlock

def StoredStack.ofDocument? (d : Document) : Option StoredStack := do
  match (← d.record? ["x", "y", "blocks"]).cells with
  | [x, y, blocks] =>
    return ⟨← defaulted? Document.int32? 0 x, ← defaulted? Document.int32? 0 y,
      ← required? StoredBlock.chainOf? blocks⟩
  | _ => none

namespace Snapshot

def canvas? (d : Document) : Option (List StoredStack) := do
  (← d.items?).mapM StoredStack.ofDocument?

def ofDocument? (d : Document) : Option Snapshot := do
  match (← d.record? ["version", "board", "stacks"]).cells with
  | [version, board, canvas] =>
    return ⟨← defaulted? Document.uint32? currentVersion version,
      ← defaulted? Document.string? Board.default.id board,
      ← defaulted? canvas? [] canvas⟩
  | _ => none

def ofText? (text : String) : Option Snapshot := do
  ofDocument? (← Document.ofText? text)

def ofValue? (value : Json) : Option Snapshot :=
  ofDocument? (.ofValue value)

end Snapshot

end BlockSketch
