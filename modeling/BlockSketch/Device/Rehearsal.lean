import BlockSketch.Device.Session

/-!
Rehearsals.  A session is tried out without a board: the bridge answers from a
script, and may be told to hold an answer back until it is released.  After
every request and everything else that happens, the session goes on until it
waits for something that only the script or the outside can give.

The rehearsal decides nothing for the session.  It only picks, among the steps
that are possible, those that nothing outside is needed for.
-/

namespace BlockSketch

inductive Method
  | listPorts
  | startSerial
  | stopSerial
  | uploadCode
deriving DecidableEq, Repr, Inhabited

def Call.method : Call → Method
  | .listPorts => .listPorts
  | .startSerial _ => .startSerial
  | .stopSerial => .stopSerial
  | .upload .. => .uploadCode

/-- An answer that the bridge will give, unless it is held back. -/
structure Cue where
  method : Method
  hold : Bool
  error : Option DeviceError
  ports : List String
deriving DecidableEq, Repr, Inhabited

namespace Cue

def usualPorts : List String :=
  ["/dev/ttyUSB0", "COM3"]

def usual (method : Method) : Cue :=
  ⟨method, false, none, usualPorts⟩

def answer (cue : Cue) : Except DeviceError Unit :=
  match cue.error with
  | some e => .error e
  | none => .ok ()

def action (cue : Cue) (task : Nat) : Session.Action :=
  match cue.method with
  | .listPorts => .listed task (cue.answer.map fun _ => cue.ports)
  | .startSerial => .opened task cue.answer
  | .stopSerial => .closed task cue.answer
  | .uploadCode => .uploaded task cue.answer

end Cue

/-- A session that is being tried out: the answers to come, the next one first, a
call that has been made, with the answer it will get, and how much of what has
happened has been looked at. -/
structure Rehearsal where
  session : Session
  script : List Cue
  call : Option (Nat × Cue)
  seen : Nat
deriving Inhabited

namespace Rehearsal

def start : Rehearsal :=
  ⟨.start, [], none, 0⟩

/-- What has happened since the last look, the first first. -/
def unseen (r : Rehearsal) : List Happening :=
  (r.session.history.take (r.session.history.length - r.seen)).reverse

def takeCue (method : Method) : List Cue → Cue × List Cue
  | [] => (.usual method, [])
  | cue :: rest =>
    if cue.method = method then (cue, rest)
    else
      let (found, rest) := takeCue method rest
      (found, cue :: rest)

def answerCall (r : Rehearsal) (task : Nat) (call : Call) : Rehearsal :=
  let (cue, script) := takeCue call.method r.script
  { r with script := script, call := some (task, cue) }

/-- The bridge notices the calls among what has newly happened. -/
def noticeCalls (r : Rehearsal) (before : Nat) : Rehearsal :=
  let news := (r.session.history.take (r.session.history.length - before)).reverse
  news.foldl
    (fun r h =>
      match h with
      | .called task call => r.answerCall task call
      | _ => r)
    r

/-- Something happens, if it can. -/
def happen (r : Rehearsal) (a : Session.Action) : Rehearsal :=
  match r.session.step? a with
  | none => r
  | some s => noticeCalls { r with session := s } r.session.history.length

/-- A call gets its answer.  When a port is opened, the stream that is still
open ends. -/
def deliver (r : Rehearsal) (task : Nat) (cue : Cue) : Rehearsal :=
  let r := { r with call := none }
  let r :=
    if cue.method = .startSerial ∧ cue.error.isNone then
      r.session.streams.foldl (fun r epoch => r.happen (.hangUp epoch)) r
    else r
  r.happen (cue.action task)

def firstPossible (s : Session) (actions : List Session.Action) : Option Session.Action :=
  actions.find? fun a => (s.step? a).isSome

/-- What the session can do by itself: readers first, then tasks. -/
def ownActions (s : Session) : List Session.Action :=
  s.readers.map (fun r => .read r.epoch) ++ s.tasks.map fun t => .proceed t.id

/-- One step that nothing outside is needed for. -/
def advance? (r : Rehearsal) : Option Rehearsal :=
  match firstPossible r.session (ownActions r.session) with
  | some a => some (r.happen a)
  | none =>
    match r.call with
    | some (task, cue) => if cue.hold then none else some (r.deliver task cue)
    | none => none

/-- Each task goes through a few stages, and each reader through its lines. -/
def stepBound (s : Session) : Nat :=
  12 * (s.tasks.length + 1) + s.readers.foldl (fun n r => n + r.arrived.length + 2) 0

def settle : Nat → Rehearsal → Rehearsal
  | 0, r => r
  | steps + 1, r =>
    match r.advance? with
    | some r => settle steps r
    | none => r

def settled (r : Rehearsal) : Rehearsal :=
  settle (stepBound r.session) r

def look (r : Rehearsal) : Rehearsal :=
  { r with seen := r.session.history.length }

/-! ### What can be done in a rehearsal -/

def ask (r : Rehearsal) (id : Nat) (request : Request) : Rehearsal :=
  (r.happen (.ask id request)).settled

def addCue (r : Rehearsal) (cue : Cue) : Rehearsal :=
  { r with script := r.script ++ [cue] }

def release (r : Rehearsal) : Rehearsal :=
  match r.call with
  | some (task, cue) => ({ r with call := some (task, { cue with hold := false }) }).settled
  | none => r

def openStream? (r : Rehearsal) : Option Nat :=
  r.session.streams.getLast?

def isRead? (r : Rehearsal) : Option Bool :=
  r.openStream?.map fun epoch => (r.session.reader? epoch).isSome

def sendLines (r : Rehearsal) (lines : List String) : Rehearsal :=
  match r.openStream? with
  | none => r
  | some epoch => (lines.foldl (fun r line => r.happen (.line epoch line)) r).settled

def hangUp (r : Rehearsal) : Rehearsal :=
  match r.openStream? with
  | none => r
  | some epoch => (r.happen (.hangUp epoch)).settled

/-- Changes the feed of the session from the side of its listeners. -/
def onFeed (r : Rehearsal) (f : Feed → Feed) : Rehearsal :=
  { r with session := { r.session with feed := f r.session.feed } }

def newCalls (r : Rehearsal) : List Call :=
  r.unseen.filterMap fun h =>
    match h with
    | .called _ call => some call
    | _ => none

def newEvents (r : Rehearsal) : List SessionEvent :=
  r.unseen.filterMap fun h =>
    match h with
    | .told event => some event
    | _ => none

/-- The tasks that have newly ended, in the order of their numbers. -/
def newOutcomes (r : Rehearsal) : List (Nat × Outcome) :=
  let ended := r.unseen.filterMap fun h =>
    match h with
    | .finished id outcome => some (id, outcome)
    | _ => none
  ended.mergeSort fun a b => a.1 ≤ b.1

end Rehearsal

end BlockSketch
