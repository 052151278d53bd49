import BlockSketch.Project.Record
import BlockSketch.Snapshot.Restore
import BlockSketch.Snapshot.Save

/-!
The project store.  Projects are kept in the order in which they were created,
under numbers that are never given again.  The store knows nothing about
programs; opening and saving put the two together.  The board of a record counts
more than the board in its snapshot.
-/

namespace BlockSketch

/-- The projects that are kept, in the order of their creation, and how many were
ever created. -/
structure ProjectStore where
  records : List ProjectRecord
  created : Nat
deriving Inhabited

namespace ProjectStore

def empty : ProjectStore := ⟨[], 0⟩

def size (store : ProjectStore) : Nat :=
  store.records.length

def get? (store : ProjectStore) (id : String) : Option ProjectRecord :=
  store.records.find? fun r => r.id == id

def get (store : ProjectStore) (id : String) : Except PersistenceError ProjectRecord :=
  match store.get? id with
  | some r => .ok r
  | none => .error (.notFound id)

def idOf (n : Nat) : String :=
  "project-" ++ toString n

def create (store : ProjectStore) (p : NewProject) (now : Timestamp) :
    ProjectStore × ProjectRecord :=
  let record : ProjectRecord :=
    ⟨idOf (store.created + 1), p.ownerId, p.name, p.boardId, p.snapshot, now⟩
  (⟨store.records ++ [record], store.created + 1⟩, record)

def update (store : ProjectStore) (id : String) (u : ProjectUpdate) (now : Timestamp) :
    Except PersistenceError (ProjectStore × ProjectRecord) := do
  let record := (← store.get id).updated u now
  return ({ store with records := store.records.map fun r => if r.id = id then record else r },
    record)

def delete (store : ProjectStore) (id : String) : Except PersistenceError ProjectStore := do
  let _ ← store.get id
  return { store with records := store.records.filter fun r => r.id != id }

/-- The projects of an owner, the one changed last first; of two changed at the
same time the older project comes first. -/
def listByOwner (store : ProjectStore) (owner : String) : List ProjectRecord :=
  (store.records.filter fun r => r.ownerId == owner).mergeSort fun a b =>
    b.updatedAt.notAfter a.updatedAt

/-! ### Projects as programs -/

/-- The program of a record: its snapshot if it can be rebuilt, on the board of
the record if there is such a board. -/
def workspaceOf (registry : Registry) (record : ProjectRecord) : Workspace :=
  let w := Workspace.loadValue registry record.snapshot
  match w.setBoard record.boardId with
  | .ok w => w
  | .error _ => w

def openProject (store : ProjectStore) (registry : Registry) (id : String) :
    Except PersistenceError (ProjectRecord × Workspace) := do
  let record ← store.get id
  return (record, workspaceOf registry record)

def saveProject (store : ProjectStore) (id : String) (w : Workspace) (now : Timestamp) :
    Except PersistenceError (ProjectStore × ProjectRecord) :=
  store.update id ⟨none, some w.board.id, some w.save.toValue⟩ now

end ProjectStore

end BlockSketch
