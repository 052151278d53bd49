import BlockSketch.Json.Printer
import BlockSketch.Json.Record
import BlockSketch.Project.Timestamp

/-!
Project records.  A project belongs to someone, has a name and a board, and
holds its program as a JSON value that the store does not look into.  A record
is created from what is new about a project and changed by updates that leave
out what stays.  All three are exchanged as JSON.
-/

namespace BlockSketch

open Json

structure ProjectRecord where
  id : String
  ownerId : String
  name : String
  boardId : String
  snapshot : Json
  updatedAt : Timestamp
deriving Inhabited

structure NewProject where
  ownerId : String
  name : String
  boardId : String
  snapshot : Json
deriving Inhabited

/-- A change to a project; what is left out stays. -/
structure ProjectUpdate where
  name : Option String
  boardId : Option String
  snapshot : Option Json
deriving Inhabited

namespace ProjectRecord

def names : List String :=
  ["id", "owner_id", "name", "board_id", "workspace_snapshot", "updated_at"]

def time? (d : Document) : Option Timestamp := do
  Timestamp.ofText? (← d.string?)

/-- Reads a record, in which nothing may be missing. -/
def ofDocument? (d : Document) : Option ProjectRecord := do
  match (← d.record? names).cells with
  | [id, owner, name, board, snapshot, time] =>
    return ⟨← required? Document.string? id, ← required? Document.string? owner,
      ← required? Document.string? name, ← required? Document.string? board,
      ← required? Document.toValue? snapshot, ← required? time? time⟩
  | _ => none

def toJson (r : ProjectRecord) : Json :=
  .object [("id", .string r.id), ("owner_id", .string r.ownerId), ("name", .string r.name),
    ("board_id", .string r.boardId), ("workspace_snapshot", r.snapshot),
    ("updated_at", .string r.updatedAt.text)]

def updated (r : ProjectRecord) (u : ProjectUpdate) (now : Timestamp) : ProjectRecord :=
  { r with
    name := u.name.getD r.name
    boardId := u.boardId.getD r.boardId
    snapshot := u.snapshot.getD r.snapshot
    updatedAt := now }

end ProjectRecord

namespace NewProject

def names : List String := ["owner_id", "name", "board_id", "workspace_snapshot"]

/-- Reads a new project; without a snapshot it begins with `null`. -/
def ofDocument? (d : Document) : Option NewProject := do
  match (← d.record? names).cells with
  | [owner, name, board, snapshot] =>
    return ⟨← required? Document.string? owner, ← required? Document.string? name,
      ← required? Document.string? board, ← defaulted? Document.toValue? .null snapshot⟩
  | _ => none

def toJson (p : NewProject) : Json :=
  .object [("owner_id", .string p.ownerId), ("name", .string p.name),
    ("board_id", .string p.boardId), ("workspace_snapshot", p.snapshot)]

end NewProject

namespace ProjectUpdate

def names : List String := ["name", "board_id", "workspace_snapshot"]

/-- Reads an update.  A field that is missing or `null` stays as it is; an
update given by position must give all three. -/
def ofDocument? (d : Document) : Option ProjectUpdate := do
  let record ← d.record? names
  match record.cells with
  | [name, board, snapshot] =>
    if record.positional ∧ snapshot.isNone then none
    else
      return ⟨← defaulted? (Document.orNull? Document.string?) none name,
        ← defaulted? (Document.orNull? Document.string?) none board,
        ← defaulted? (Document.orNull? Document.toValue?) none snapshot⟩
  | _ => none

def toJson (u : ProjectUpdate) : Json :=
  .object [("name", .ofOption .string u.name), ("board_id", .ofOption .string u.boardId),
    ("workspace_snapshot", .ofOption id u.snapshot)]

end ProjectUpdate

end BlockSketch
