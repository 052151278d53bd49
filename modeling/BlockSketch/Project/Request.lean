import BlockSketch.Project.Store

/-!
Requests as data.  Those who use a store take turns; what a store has been asked,
and when, is a list.  The clock need not go forward, so every request comes with
the time at which it is met.  A request that is refused leaves the store as it was.
-/

namespace BlockSketch.ProjectStore

/-- One request to a store. A project can also be opened as a program, and a
program saved in it. -/
inductive Request
  | create (project : NewProject)
  | update (id : String) (update : ProjectUpdate)
  | delete (id : String)
  | get (id : String)
  | list (owner : String)
  | program (registry : Registry) (id : String)
  | save (id : String) (w : Workspace)
deriving Inhabited

/-- What a store answers to a request that it grants. -/
inductive Answer
  | done
  | record (record : ProjectRecord)
  | records (records : List ProjectRecord)
  | program (record : ProjectRecord) (w : Workspace)
deriving Inhabited

def perform (store : ProjectStore) (request : Request) (now : Timestamp) :
    Except PersistenceError (ProjectStore × Answer) :=
  match request with
  | .create project =>
    let (store, record) := store.create project now
    return (store, .record record)
  | .update id update => do
    let (store, record) ← store.update id update now
    return (store, .record record)
  | .delete id => do return (← store.delete id, .done)
  | .get id => do return (store, .record (← store.get id))
  | .list owner => return (store, .records (store.listByOwner owner))
  | .program registry id => do
    let (record, w) ← store.openProject registry id
    return (store, .program record w)
  | .save id w => do
    let (store, record) ← store.saveProject id w now
    return (store, .record record)

/-- What becomes of a store when it is asked something, and what it answers. -/
def serve (store : ProjectStore) (request : Request) (now : Timestamp) :
    ProjectStore × Except PersistenceError Answer :=
  match store.perform request now with
  | .ok (store, answer) => (store, .ok answer)
  | .error e => (store, .error e)

/-- What a store has been asked, and when, the first request first. -/
abbrev History := List (Request × Timestamp)

def serveAll (store : ProjectStore) (history : History) : ProjectStore :=
  history.foldl (fun store asked => (store.serve asked.1 asked.2).1) store

@[simp] theorem serveAll_nil (store : ProjectStore) : store.serveAll [] = store := rfl

end BlockSketch.ProjectStore
