import BlockSketch.Device.Error
import BlockSketch.Device.Feed

/-!
Device sessions.  There is one serial port, and three things are done with it:
looking which ports there are, watching what the board sends, and uploading a
sketch.  They must not meet.  An upload stops the monitor first; a second upload
while one is under way is ignored; everything else is told to come back later.

A session is a transition system.  A request becomes a task, and a task goes on
by itself until it has to wait: for the port, which is handed on in the order of
asking, for the end of the reader of a monitor that is being stopped, or for an
answer of the bridge.  Each step of the system is what happens between two
waits, or something that happens outside: an answer, a line, the end of a
stream.  Any order of steps is a run of the session.
-/

namespace BlockSketch

inductive Phase
  | idle
  | listing
  | uploading
  | monitoring
deriving DecidableEq, Repr, Inhabited

def Phase.busyReason : Phase → String
  | .idle => "idle"
  | .listing => "listing ports"
  | .uploading => "upload in progress"
  | .monitoring => "serial monitor is running"

inductive Request
  | list
  | monitor (port : String)
  | stop
  | upload (source boardId port : String)
deriving DecidableEq, Repr, Inhabited

inductive Job
  | list
  | monitor (port : String)
  | stop
  | upload (source : String) (board : Board) (port : String)
deriving DecidableEq, Repr, Inhabited

inductive Call
  | listPorts
  | startSerial (port : String)
  | stopSerial
  | upload (source : String) (board : Board) (port : String)
deriving DecidableEq, Repr, Inhabited

/-- What everyone is told. A monitor is stopped on request, and closed when the
board ends its stream. -/
inductive SessionEvent
  | monitorStarted (port : String)
  | monitorStopped (port : String)
  | monitorClosed (port : String)
  | uploadStarted (port : String)
  | uploadSucceeded (port : String)
  | uploadFailed (error : DeviceError)
deriving DecidableEq, Repr, Inhabited

inductive UploadOutcome
  | uploaded
  | alreadyUploading
deriving DecidableEq, Repr, Inhabited

/-- How a task ends. If the ports could not be listed, there are none. -/
inductive Outcome
  | ports (found : List String) (error : Option DeviceError)
  | done
  | uploaded (outcome : UploadOutcome)
  | failed (error : DeviceError)
deriving DecidableEq, Repr, Inhabited

/-- A monitor that is running; the epoch says which of the session's monitors it
is. -/
structure Monitor where
  port : String
  epoch : Nat
deriving DecidableEq, Repr, Inhabited

/-- What a task is waiting for: the port, the end of the reader of a monitor that
it is stopping, or an answer of the bridge. A task that has been granted the port
waits for nothing. -/
inductive Stage
  | queued
  | granted
  | joining (monitor : Monitor)
  | listing
  | opening
  | closing (monitor : Monitor)
  | uploading
deriving DecidableEq, Repr, Inhabited

structure Task where
  id : Nat
  job : Job
  stage : Stage
deriving DecidableEq, Repr, Inhabited

/-- The reader of a monitor: it takes the lines of a stream and passes them to the
feed. Lines that have arrived were not taken yet, and one that is cancelled takes
no more. -/
structure Reader where
  epoch : Nat
  port : String
  arrived : List String
  ended : Bool
  cancelled : Bool
deriving DecidableEq, Repr, Inhabited

inductive Happening
  | asked (task : Nat) (request : Request)
  | called (task : Nat) (call : Call)
  | answered (task : Nat) (error : Option DeviceError)
  | told (event : SessionEvent)
  | finished (task : Nat) (outcome : Outcome)
  | lineArrived (epoch : Nat) (line : String)
  | streamEnded (epoch : Nat)
  | linePassed (epoch : Nat) (line : String)
deriving DecidableEq, Repr, Inhabited

/-- A device session. One task holds the port, and others wait for it in the order
of asking; the flag for uploads is set while one is under way or waits. The epoch
counts the monitors. Streams are listed that were opened and have neither ended
nor been closed. The history begins with what happened last. -/
structure Session where
  phase : Phase
  monitor : Option Monitor
  epoch : Nat
  uploading : Bool
  holder : Option Nat
  waiting : List Nat
  tasks : List Task
  readers : List Reader
  streams : List Nat
  feed : Feed
  history : List Happening
deriving DecidableEq, Repr, Inhabited

namespace Session

def start : Session :=
  ⟨.idle, none, 0, false, none, [], [], [], [], .empty, []⟩

def monitoredPort (s : Session) : Option String :=
  s.monitor.map Monitor.port

/-! ### Small changes -/

def note (s : Session) (h : Happening) : Session :=
  { s with history := h :: s.history }

def tell (s : Session) (event : SessionEvent) : Session :=
  s.note (.told event)

def setStage (s : Session) (id : Nat) (stage : Stage) : Session :=
  { s with tasks := s.tasks.map fun t => if t.id = id then { t with stage := stage } else t }

def call (s : Session) (id : Nat) (c : Call) (stage : Stage) : Session :=
  (s.note (.called id c)).setStage id stage

def cancel (s : Session) (epoch : Nat) : Session :=
  { s with
    readers := s.readers.map fun r => if r.epoch = epoch then { r with cancelled := true } else r }

/-- Hands the port to the task that has waited longest. -/
def release (s : Session) : Session :=
  match s.waiting with
  | [] => { s with holder := none }
  | next :: rest => { s with holder := some next, waiting := rest }.setStage next .granted

/-- A task ends without having had the port. -/
def finish (s : Session) (id : Nat) (outcome : Outcome) : Session :=
  { s with tasks := s.tasks.filter fun t => t.id ≠ id }.note (.finished id outcome)

/-- A task ends and hands the port on. -/
def leave (s : Session) (id : Nat) (outcome : Outcome) : Session :=
  (s.release).finish id outcome

def leaveIdle (s : Session) (id : Nat) (outcome : Outcome) : Session :=
  { s with phase := .idle }.leave id outcome

/-- An upload ends: the session is idle again, and another upload may come. -/
def leaveUpload (s : Session) (id : Nat) (outcome : Outcome) : Session :=
  { s.leaveIdle id outcome with uploading := false }

/-! ### Tasks with the port -/

def beginUpload (s : Session) (id : Nat) (source : String) (board : Board) (port : String) :
    Session :=
  (s.tell (.uploadStarted port)).call id (.upload source board port) .uploading

/-- A task begins to stop a monitor, which is no longer the session's. -/
def beginTeardown (s : Session) (id : Nat) (monitor : Monitor) : Session :=
  ({ s with monitor := none }.cancel monitor.epoch).setStage id (.joining monitor)

/-- What a task does when it has got the port. -/
def enter (s : Session) (id : Nat) : Job → Session
  | .list =>
    if s.phase = .idle then
      { s with phase := .listing }.call id .listPorts .listing
    else s.leave id (.ports [] (some (.busy s.phase.busyReason)))
  | .monitor port =>
    if s.phase = .idle then s.call id (.startSerial port) .opening
    else s.leave id (.failed (.busy s.phase.busyReason))
  | .stop =>
    match s.monitor with
    | some monitor => s.beginTeardown id monitor
    | none => s.leave id .done
  | .upload source board port =>
    let s := { s with phase := .uploading }
    match s.monitor with
    | some monitor => s.beginTeardown id monitor
    | none => s.beginUpload id source board port

def askForPort (s : Session) (id : Nat) (job : Job) : Session :=
  match s.holder with
  | none =>
    let s : Session := { s with holder := some id, tasks := s.tasks ++ [⟨id, job, .granted⟩] }
    s.enter id job
  | some _ => { s with waiting := s.waiting ++ [id], tasks := s.tasks ++ [⟨id, job, .queued⟩] }

/-! ### Steps -/

/-- What can happen in a session: something new is asked, under a number of its
own; a task that waits for nothing of the bridge goes on, or gets an answer; a
line arrives, or a stream ends; and a reader takes a line, or ends. -/
inductive Action
  | ask (id : Nat) (request : Request)
  | proceed (id : Nat)
  | listed (id : Nat) (answer : Except DeviceError (List String))
  | opened (id : Nat) (answer : Except DeviceError Unit)
  | closed (id : Nat) (answer : Except DeviceError Unit)
  | uploaded (id : Nat) (answer : Except DeviceError Unit)
  | line (epoch : Nat) (line : String)
  | hangUp (epoch : Nat)
  | read (epoch : Nat)

def ask (s : Session) (id : Nat) (request : Request) : Session :=
  let s := s.note (.asked id request)
  let busy : DeviceError := .busy Phase.uploading.busyReason
  match request with
  | .list =>
    if s.uploading then s.finish id (.ports [] (some busy)) else s.askForPort id .list
  | .monitor port =>
    if s.uploading then s.finish id (.failed busy) else s.askForPort id (.monitor port)
  | .stop => s.askForPort id .stop
  | .upload source boardId port =>
    match Board.resolve boardId with
    | .error e => s.finish id (.failed (.ofBoard e))
    | .ok board =>
      if s.uploading then s.finish id (.uploaded .alreadyUploading)
      else { s with uploading := true }.askForPort id (.upload source board port)

/-- The reader of a monitor, while it has not ended. -/
def reader? (s : Session) (epoch : Nat) : Option Reader :=
  s.readers.find? fun r => r.epoch = epoch

/-- A task that waits for nothing of the bridge goes on: it has been handed the
port, or the reader that it has told to stop has ended. -/
def proceed? (s : Session) (t : Task) : Option Session :=
  match t.stage with
  | .granted => some (s.enter t.id t.job)
  | .joining monitor =>
    if (s.reader? monitor.epoch).isSome then none
    else some (s.call t.id .stopSerial (.closing monitor))
  | _ => none

def listed (s : Session) (id : Nat) (answer : Except DeviceError (List String)) : Session :=
  match answer with
  | .ok ports => (s.note (.answered id none)).leaveIdle id (.ports ports none)
  | .error e => (s.note (.answered id (some e))).leaveIdle id (.ports [] (some e))

/-- The port has been opened: a monitor begins, with an empty feed and a reader
of its own. -/
def opened (s : Session) (id : Nat) (port : String) (answer : Except DeviceError Unit) :
    Session :=
  match answer with
  | .error e => (s.note (.answered id (some e))).leave id (.failed e)
  | .ok () =>
    let s := s.note (.answered id none)
    let epoch := s.epoch + 1
    let s : Session := { s with
      feed := s.feed.clear
      epoch := epoch
      readers := s.readers ++ [⟨epoch, port, [], false, false⟩]
      streams := s.streams ++ [epoch]
      monitor := some ⟨port, epoch⟩
      phase := .monitoring }
    (s.tell (.monitorStarted port)).leave id .done

def portClosed (s : Session) (id : Nat) (monitor : Monitor) : Session :=
  ({ s with streams := [] }.note (.answered id none)).tell (.monitorStopped monitor.port)

/-- The bridge has answered a task that is stopping a monitor: the task ends, or
goes on to upload. -/
def closed (s : Session) (id : Nat) (job : Job) (monitor : Monitor)
    (answer : Except DeviceError Unit) : Session :=
  match answer, job with
  | .ok (), .upload source board port => (s.portClosed id monitor).beginUpload id source board port
  | .ok (), _ => (s.portClosed id monitor).leaveIdle id .done
  | .error e, .upload .. =>
    ((s.note (.answered id (some e))).tell (.uploadFailed e)).leaveUpload id (.failed e)
  | .error e, _ => (s.note (.answered id (some e))).leaveIdle id (.failed e)

def uploadEnded (s : Session) (id : Nat) (port : String) (answer : Except DeviceError Unit) :
    Session :=
  match answer with
  | .ok () =>
    ((s.note (.answered id none)).tell (.uploadSucceeded port)).leaveUpload id
      (.uploaded .uploaded)
  | .error e =>
    ((s.note (.answered id (some e))).tell (.uploadFailed e)).leaveUpload id (.failed e)

def modifyReader (s : Session) (epoch : Nat) (f : Reader → Reader) : Session :=
  { s with readers := s.readers.map fun r => if r.epoch = epoch then f r else r }

/-- A line arrives on a stream; it waits there for the reader, if one is left. -/
def lineArrives (s : Session) (epoch : Nat) (line : String) : Session :=
  (s.modifyReader epoch fun r => { r with arrived := r.arrived ++ [line] }).note
    (.lineArrived epoch line)

def streamEnds (s : Session) (epoch : Nat) : Session :=
  let s := s.modifyReader epoch fun r => { r with ended := true }
  { s with streams := s.streams.filter fun e => e ≠ epoch }.note (.streamEnded epoch)

def dropReader (s : Session) (epoch : Nat) : Session :=
  { s with readers := s.readers.filter fun r => r.epoch ≠ epoch }

/-- A reader has come to the end of its stream.  If its monitor is still the
session's, the monitor is over. -/
def streamOver (s : Session) (r : Reader) : Session :=
  let s := s.dropReader r.epoch
  if s.monitor.map Monitor.epoch = some r.epoch then
    { s with monitor := none, phase := .idle }.tell (.monitorClosed r.port)
  else s

def read? (s : Session) (r : Reader) : Option Session :=
  if r.cancelled then some (s.dropReader r.epoch)
  else
    match r.arrived with
    | line :: rest =>
      let s := s.modifyReader r.epoch fun r => { r with arrived := rest }
      some ({ s with feed := s.feed.publish line }.note (.linePassed r.epoch line))
    | [] => if r.ended then some (s.streamOver r) else none

def task? (s : Session) (id : Nat) : Option Task :=
  s.tasks.find? fun t => t.id = id

/-- What becomes of a session when something happens; nothing if it cannot
happen. -/
def step? (s : Session) : Action → Option Session
  | .ask id request => if (s.task? id).isSome then none else some (s.ask id request)
  | .proceed id => do s.proceed? (← s.task? id)
  | .listed id answer => do
    let t ← s.task? id
    if t.stage = .listing then some (s.listed id answer) else none
  | .opened id answer => do
    match ← s.task? id with
    | ⟨_, .monitor port, .opening⟩ => some (s.opened id port answer)
    | _ => none
  | .closed id answer => do
    match ← s.task? id with
    | ⟨_, job, .closing monitor⟩ => some (s.closed id job monitor answer)
    | _ => none
  | .uploaded id answer => do
    match ← s.task? id with
    | ⟨_, .upload _ _ port, .uploading⟩ => some (s.uploadEnded id port answer)
    | _ => none
  | .line epoch line =>
    if epoch ∈ s.streams then some (s.lineArrives epoch line) else none
  | .hangUp epoch => if epoch ∈ s.streams then some (s.streamEnds epoch) else none
  | .read epoch => do s.read? (← s.reader? epoch)

/-- The sessions that can come out of another one. -/
inductive Run : Session → Session → Prop
  | refl (s : Session) : Run s s
  | step {s t u : Session} {a : Action} : Run s t → t.step? a = some u → Run s u

/-! ### Bookkeeping -/

@[simp] theorem history_note (s : Session) (h : Happening) :
    (s.note h).history = h :: s.history := rfl

@[simp] theorem history_setStage (s : Session) (id : Nat) (stage : Stage) :
    (s.setStage id stage).history = s.history := rfl

@[simp] theorem history_release (s : Session) : s.release.history = s.history := by
  unfold release; split <;> rfl

@[simp] theorem phase_release (s : Session) : s.release.phase = s.phase := by
  unfold release; split <;> rfl

@[simp] theorem monitor_release (s : Session) : s.release.monitor = s.monitor := by
  unfold release; split <;> rfl

end Session

end BlockSketch
