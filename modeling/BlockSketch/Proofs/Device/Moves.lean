import BlockSketch.Proofs.Device.Line
import Mathlib.Data.List.Basic
import Mathlib.Logic.Relation

/-!
What can happen in a session, said once. Every step of a session is one move or
two, and a move says which task is the first in line, what it finds, and which
session comes out of it, part by part. A request that finds nobody in line comes
first and then goes on at once; everything else is a single move.

What holds of a session along its runs is shown move by move.
-/

namespace BlockSketch

def Job.isUpload : Job → Bool
  | .upload .. => true
  | _ => false

/-- Whether a task stops the monitor that it finds. -/
def Job.stopsMonitor : Job → Bool
  | .stop => true
  | .upload .. => true
  | _ => false

namespace Session

/-! ### Requests -/

/-- The task that a request becomes, or how it ends at once. -/
def receive (s : Session) : Request → Except Outcome Job
  | .list =>
    if s.uploading then .error (.ports [] (some (.busy Phase.uploading.busyReason)))
    else .ok .list
  | .monitor port =>
    if s.uploading then .error (.failed (.busy Phase.uploading.busyReason))
    else .ok (.monitor port)
  | .stop => .ok .stop
  | .upload source boardId port =>
    match Board.resolve boardId with
    | .error e => .error (.failed (.ofBoard e))
    | .ok board =>
      if s.uploading then .error (.uploaded .alreadyUploading)
      else .ok (.upload source board port)

def received (s : Session) (id : Nat) (request : Request) (job : Job) : Session :=
  { s with uploading := s.uploading || job.isUpload, history := .asked id request :: s.history }

theorem ask_eq (s : Session) (id : Nat) (request : Request) :
    s.ask id request =
      match s.receive request with
      | .error outcome => (s.note (.asked id request)).finish id outcome
      | .ok job => (s.received id request job).askForPort id job := by
  have hkept : ∀ job : Job, job.isUpload = false →
      s.received id request job = s.note (.asked id request) := by
    intro job hjob
    rw [received, hjob, Bool.or_false, note]
  cases request with
  | list =>
    cases hu : s.uploading
    · simp [ask, receive, hu, note, hkept .list rfl]
    · simp [ask, receive, hu, note]
  | monitor port =>
    cases hu : s.uploading
    · simp [ask, receive, hu, note, hkept (.monitor port) rfl]
    · simp [ask, receive, hu, note]
  | stop => simp [ask, receive, note, hkept .stop rfl]
  | upload source boardId port =>
    cases hb : Board.resolve boardId with
    | error e => simp [ask, receive, hb, note]
    | ok board =>
      cases hu : s.uploading
      · simp [ask, receive, hb, hu, note, received, Job.isUpload]
      · simp [ask, receive, hb, hu, note]

/-! ### Moves -/

def portOpened (s : Session) (id : Nat) (port : String) : Session :=
  { s with
    phase := .monitoring
    monitor := some ⟨port, s.epoch + 1⟩
    epoch := s.epoch + 1
    readers := s.readers ++ [⟨s.epoch + 1, port, [], false, false⟩]
    streams := s.streams ++ [s.epoch + 1]
    feed := s.feed.clear
    history := .told (.monitorStarted port) :: .answered id none :: s.history }

/-- What can happen in a session, and what becomes of it. -/
inductive Move (s : Session) : Session → Prop
  | refuse {id : Nat} {request : Request} {outcome : Outcome} :
      (∀ t ∈ s.tasks, t.id ≠ id) → s.receive request = .error outcome →
      Move s { s with history := .finished id outcome :: .asked id request :: s.history }
  | wait {id : Nat} {request : Request} {job : Job} :
      (∀ t ∈ s.tasks, t.id ≠ id) → s.receive request = .ok job → s.tasks ≠ [] →
      Move s ({ s with
        waiting := s.waiting ++ [id]
        tasks := s.tasks ++ [(⟨id, job, .queued⟩ : Task)] }.received id request job)
  | come {request : Request} {job : Job} (id : Nat) :
      s.receive request = .ok job → s.tasks = [] →
      Move s ({ s with
        holder := some id
        tasks := [(⟨id, job, .granted⟩ : Task)] }.received id request job)
  | listBusy {id : Nat} {rest : List Task} :
      s.tasks = ⟨id, .list, .granted⟩ :: rest → s.phase ≠ .idle →
      Move s (s.departed rest id (.ports [] (some (.busy s.phase.busyReason))))
  | list {id : Nat} {rest : List Task} :
      s.tasks = ⟨id, .list, .granted⟩ :: rest → s.phase = .idle →
      Move s { s with
        phase := .listing
        tasks := ⟨id, .list, .listing⟩ :: rest
        history := .called id .listPorts :: s.history }
  | monitorBusy {id : Nat} {port : String} {rest : List Task} :
      s.tasks = ⟨id, .monitor port, .granted⟩ :: rest → s.phase ≠ .idle →
      Move s (s.departed rest id (.failed (.busy s.phase.busyReason)))
  | openPort {id : Nat} {port : String} {rest : List Task} :
      s.tasks = ⟨id, .monitor port, .granted⟩ :: rest → s.phase = .idle →
      Move s { s with
        tasks := ⟨id, .monitor port, .opening⟩ :: rest
        history := .called id (.startSerial port) :: s.history }
  | nothingToStop {id : Nat} {rest : List Task} :
      s.tasks = ⟨id, .stop, .granted⟩ :: rest → s.monitor = none →
      Move s (s.departed rest id .done)
  | teardown {id : Nat} {job : Job} {monitor : Monitor} {rest : List Task} :
      s.tasks = ⟨id, job, .granted⟩ :: rest → job.stopsMonitor → s.monitor = some monitor →
      Move s { s with
        phase := if job.isUpload then .uploading else s.phase
        monitor := none
        readers := s.readers.map fun r =>
          if r.epoch = monitor.epoch then { r with cancelled := true } else r
        tasks := ⟨id, job, .joining monitor⟩ :: rest }
  | upload {id : Nat} {source port : String} {board : Board} {rest : List Task} :
      s.tasks = ⟨id, .upload source board port, .granted⟩ :: rest → s.monitor = none →
      Move s { s with
        phase := .uploading
        tasks := ⟨id, .upload source board port, .uploading⟩ :: rest
        history := .called id (.upload source board port) :: .told (.uploadStarted port) ::
          s.history }
  | close {id : Nat} {job : Job} {monitor : Monitor} {rest : List Task} :
      s.tasks = ⟨id, job, .joining monitor⟩ :: rest → s.reader? monitor.epoch = none →
      Move s { s with
        tasks := ⟨id, job, .closing monitor⟩ :: rest
        history := .called id .stopSerial :: s.history }
  | listed {id : Nat} {job : Job} {rest : List Task} (ports : List String) :
      s.tasks = ⟨id, job, .listing⟩ :: rest →
      Move s ({ s with phase := .idle, history := .answered id none :: s.history }.departed rest id
        (.ports ports none))
  | listFailed {id : Nat} {job : Job} {rest : List Task} (e : DeviceError) :
      s.tasks = ⟨id, job, .listing⟩ :: rest →
      Move s ({ s with
        phase := .idle
        history := .answered id (some e) :: s.history }.departed rest id (.ports [] (some e)))
  | opened {id : Nat} {port : String} {rest : List Task} :
      s.tasks = ⟨id, .monitor port, .opening⟩ :: rest →
      Move s ((s.portOpened id port).departed rest id .done)
  | openFailed {id : Nat} {port : String} {rest : List Task} (e : DeviceError) :
      s.tasks = ⟨id, .monitor port, .opening⟩ :: rest →
      Move s ({ s with history := .answered id (some e) :: s.history }.departed rest id (.failed e))
  | stopped {id : Nat} {job : Job} {monitor : Monitor} {rest : List Task} :
      s.tasks = ⟨id, job, .closing monitor⟩ :: rest → job.isUpload = false →
      Move s ({ s with
        phase := .idle
        streams := []
        history := .told (.monitorStopped monitor.port) :: .answered id none ::
          s.history }.departed rest id .done)
  | stopFailed {id : Nat} {job : Job} {monitor : Monitor} {rest : List Task} (e : DeviceError) :
      s.tasks = ⟨id, job, .closing monitor⟩ :: rest → job.isUpload = false →
      Move s ({ s with phase := .idle, history := .answered id (some e) :: s.history }.departed
        rest id (.failed e))
  | tornDown {id : Nat} {source port : String} {board : Board} {monitor : Monitor}
      {rest : List Task} :
      s.tasks = ⟨id, .upload source board port, .closing monitor⟩ :: rest →
      Move s { s with
        streams := []
        tasks := ⟨id, .upload source board port, .uploading⟩ :: rest
        history := .called id (.upload source board port) :: .told (.uploadStarted port) ::
          .told (.monitorStopped monitor.port) :: .answered id none :: s.history }
  | teardownFailed {id : Nat} {source port : String} {board : Board} {monitor : Monitor}
      {rest : List Task} (e : DeviceError) :
      s.tasks = ⟨id, .upload source board port, .closing monitor⟩ :: rest →
      Move s ({ s with
        phase := .idle
        uploading := false
        history := .told (.uploadFailed e) :: .answered id (some e) :: s.history }.departed
          rest id (.failed e))
  | uploaded {id : Nat} {source port : String} {board : Board} {rest : List Task} :
      s.tasks = ⟨id, .upload source board port, .uploading⟩ :: rest →
      Move s ({ s with
        phase := .idle
        uploading := false
        history := .told (.uploadSucceeded port) :: .answered id none :: s.history }.departed
          rest id (.uploaded .uploaded))
  | uploadFailed {id : Nat} {source port : String} {board : Board} {rest : List Task}
      (e : DeviceError) :
      s.tasks = ⟨id, .upload source board port, .uploading⟩ :: rest →
      Move s ({ s with
        phase := .idle
        uploading := false
        history := .told (.uploadFailed e) :: .answered id (some e) :: s.history }.departed
          rest id (.failed e))
  | lineArrived {epoch : Nat} (text : String) :
      epoch ∈ s.streams → Move s (s.lineArrives epoch text)
  | hangUp {epoch : Nat} : epoch ∈ s.streams → Move s (s.streamEnds epoch)
  | drop {r : Reader} : r ∈ s.readers → r.cancelled → Move s (s.dropReader r.epoch)
  | pass {r : Reader} {text : String} {others : List String} :
      r ∈ s.readers → r.cancelled = false → r.arrived = text :: others →
      Move s ({ s with
        feed := s.feed.publish text
        history := .linePassed r.epoch text :: s.history }.modifyReader r.epoch
          fun r => { r with arrived := others })
  | readerOver {r : Reader} :
      r ∈ s.readers → r.cancelled = false → r.arrived = [] → r.ended →
      s.monitor.map Monitor.epoch ≠ some r.epoch → Move s (s.dropReader r.epoch)
  | monitorOver {r : Reader} :
      r ∈ s.readers → r.cancelled = false → r.arrived = [] → r.ended →
      s.monitor.map Monitor.epoch = some r.epoch →
      Move s ({ s with
        phase := .idle
        monitor := none
        history := .told (.monitorClosed r.port) :: s.history }.dropReader r.epoch)

def Moves : Session → Session → Prop :=
  Relation.ReflTransGen Move

variable {s u : Session}

/-- Whoever comes behind others does not change who is first. -/
theorem head?_behind (hne : s.tasks ≠ []) (t : Task) :
    (s.tasks ++ [t]).head? = s.tasks.head? :=
  List.head?_append_of_ne_nil _ hne

/-- After a move the tasks still stand in line. -/
theorem Move.keeps_line (h : s.Line) (m : Move s u) : u.Line := by
  cases m with
  | refuse | lineArrived | hangUp | drop | pass | readerOver | monitorOver => exact h
  | wait hid _ hne => exact h.append hne hid
  | come _ _ hnil =>
    have hline : InLine [] s.holder s.waiting := hnil ▸ h
    exact hline.first
  | list ht | openPort ht | teardown ht | upload ht | close ht | tornDown ht =>
    exact (h.front ht).restage (by simp)
  | listBusy ht | monitorBusy ht | nothingToStop ht | listed _ ht | listFailed _ ht | opened ht
  | openFailed _ ht | stopped ht | stopFailed _ ht | teardownFailed _ ht | uploaded ht
  | uploadFailed _ ht =>
    exact (h.front ht).moveUp

/-- What has happened stays. -/
theorem Move.history_suffix (m : Move s u) : s.history <:+ u.history := by
  cases m with
  | teardown | drop | readerOver => exact ⟨[], rfl⟩
  | wait | come | listBusy | list | monitorBusy | openPort | nothingToStop | close | lineArrived
  | hangUp | pass | monitorOver =>
    exact ⟨[_], rfl⟩
  | refuse | upload | listed | listFailed | openFailed | stopFailed => exact ⟨[_, _], rfl⟩
  | opened | stopped | teardownFailed | uploaded | uploadFailed => exact ⟨[_, _, _], rfl⟩
  | tornDown => exact ⟨[_, _, _, _], rfl⟩

/-! ### Steps are moves -/

/-- What the first task does with the port. -/
theorem Line.enter (h : s.Line) {id : Nat} {job : Job} {rest : List Task}
    (ht : s.tasks = ⟨id, job, .granted⟩ :: rest) : Move s (s.enter id job) := by
  cases job with
  | list =>
    by_cases hidle : s.phase = .idle
    · rw [Session.enter, if_pos hidle, Line.call_eq (s := { s with phase := .listing }) h ht]
      exact .list ht hidle
    · rw [Session.enter, if_neg hidle, h.leave_eq ht]
      exact .listBusy ht hidle
  | monitor port =>
    by_cases hidle : s.phase = .idle
    · rw [Session.enter, if_pos hidle, h.call_eq ht]
      exact .openPort ht hidle
    · rw [Session.enter, if_neg hidle, h.leave_eq ht]
      exact .monitorBusy ht hidle
  | stop =>
    simp only [Session.enter]
    split
    next monitor hm =>
      rw [h.beginTeardown_eq ht]
      exact .teardown ht rfl hm
    next hm =>
      rw [h.leave_eq ht]
      exact .nothingToStop ht hm
  | upload source board port =>
    simp only [Session.enter]
    split
    next monitor hm =>
      rw [Line.beginTeardown_eq (s := { s with phase := .uploading }) h ht]
      exact .teardown ht rfl hm
    next hm =>
      rw [Line.beginUpload_eq (s := { s with phase := .uploading }) h ht]
      exact .upload ht hm

/-- Who finds nobody in line comes first, and goes on. -/
theorem Line.askForPort_first (h : s.Line) (ht : s.tasks = []) (id : Nat) (request : Request)
    (job : Job) :
    (s.received id request job).askForPort id job =
      Session.enter (({ s with
        holder := some id
        tasks := [⟨id, job, .granted⟩] } : Session).received id request job) id job := by
  have hholder : s.holder = none := by rw [h.holder, ht]; rfl
  simp only [askForPort, received, hholder, ht, List.nil_append]

/-- Who finds others in line waits behind them. -/
theorem Line.askForPort_behind (h : s.Line) (hne : s.tasks ≠ []) (id : Nat) (request : Request)
    (job : Job) :
    (s.received id request job).askForPort id job =
      ({ s with
        waiting := s.waiting ++ [id]
        tasks := s.tasks ++ [⟨id, job, .queued⟩] } : Session).received id request job := by
  obtain ⟨t, rest, ht⟩ := List.exists_cons_of_ne_nil hne
  have hholder : s.holder = some t.id := by rw [h.holder, ht]; rfl
  unfold askForPort
  split
  next hfree => cases hholder.symm.trans hfree
  next => rfl

/-- A request is refused, waits behind others, or comes first and goes on. -/
theorem Line.ask (h : s.Line) {id : Nat} (hid : ∀ t ∈ s.tasks, t.id ≠ id) (request : Request) :
    Moves s (s.ask id request) := by
  rw [ask_eq]
  cases hr : s.receive request with
  | error outcome =>
    have hfinish : (s.note (.asked id request)).finish id outcome =
        { s with history := .finished id outcome :: .asked id request :: s.history } := by
      simp only [finish, note, filter_of_ne hid]
    have hrefuse := Move.refuse hid hr
    rw [← hfinish] at hrefuse
    exact .single hrefuse
  | ok job =>
    by_cases ht : s.tasks = []
    · have hcome := Move.come id hr ht
      simp only [h.askForPort_first ht]
      exact .tail (.single hcome) (Line.enter (hcome.keeps_line h) rfl)
    · have hwait := Move.wait hid hr ht
      rw [← h.askForPort_behind ht] at hwait
      exact .single hwait

/-- A reader takes a line, or ends. -/
theorem read_move {r : Reader} (hr : r ∈ s.readers) (hread : s.read? r = some u) : Move s u := by
  unfold read? at hread
  split at hread
  next hcancelled =>
    cases hread
    exact .drop hr hcancelled
  next hcancelled =>
    rw [Bool.not_eq_true] at hcancelled
    split at hread
    next text others harrived =>
      cases hread
      exact .pass hr hcancelled harrived
    next harrived =>
      split at hread
      next hended =>
        cases hread
        simp only [streamOver]
        split
        next hmonitor => exact .monitorOver hr hcancelled harrived hended hmonitor
        next hmonitor => exact .readerOver hr hcancelled harrived hended hmonitor
      next => cases hread

/-! ### Answers -/

section Answers

variable {id : Nat} {job : Job} {rest : List Task}

theorem Line.listed (h : s.Line) (ht : s.tasks = ⟨id, job, .listing⟩ :: rest)
    (answer : Except DeviceError (List String)) : Move s (s.listed id answer) := by
  cases answer with
  | ok ports =>
    rw [Session.listed, Line.leaveIdle_eq (s := s.note (.answered id none)) h ht]
    exact .listed ports ht
  | error e =>
    rw [Session.listed, Line.leaveIdle_eq (s := s.note (.answered id (some e))) h ht]
    exact .listFailed e ht

theorem Line.opened (h : s.Line) {port : String}
    (ht : s.tasks = ⟨id, .monitor port, .opening⟩ :: rest) (answer : Except DeviceError Unit) :
    Move s (s.opened id port answer) := by
  cases answer with
  | ok _ =>
    have hleave := Line.leave_eq (s := s.portOpened id port) h ht .done
    have hopened := Move.opened ht
    rw [← hleave] at hopened
    exact hopened
  | error e =>
    rw [Session.opened, Line.leave_eq (s := s.note (.answered id (some e))) h ht]
    exact .openFailed e ht

/-- The end of a monitor: an upload goes on, and a stop is done. -/
theorem Line.closed (h : s.Line) {monitor : Monitor}
    (ht : s.tasks = ⟨id, job, .closing monitor⟩ :: rest) (answer : Except DeviceError Unit) :
    Move s (s.closed id job monitor answer) := by
  cases hjob : job.isUpload with
  | true =>
    cases job with
    | upload source board port =>
      cases answer with
      | ok _ =>
        rw [Session.closed, Line.beginUpload_eq (s := s.portClosed id monitor) h ht]
        exact .tornDown ht
      | error e =>
        rw [Session.closed, Line.leaveUpload_eq
          (s := (s.note (.answered id (some e))).tell (.uploadFailed e)) h ht]
        exact .teardownFailed e ht
    | list | monitor | stop => cases hjob
  | false =>
    cases answer with
    | ok _ =>
      have hclosed : s.closed id job monitor (.ok ()) =
          (s.portClosed id monitor).leaveIdle id .done := by
        cases job <;> first | rfl | cases hjob
      rw [hclosed, Line.leaveIdle_eq (s := s.portClosed id monitor) h ht]
      exact .stopped ht hjob
    | error e =>
      have hclosed : s.closed id job monitor (.error e) =
          (s.note (.answered id (some e))).leaveIdle id (.failed e) := by
        cases job <;> first | rfl | cases hjob
      rw [hclosed, Line.leaveIdle_eq (s := s.note (.answered id (some e))) h ht]
      exact .stopFailed e ht hjob

theorem Line.uploaded (h : s.Line) {source port : String} {board : Board}
    (ht : s.tasks = ⟨id, .upload source board port, .uploading⟩ :: rest)
    (answer : Except DeviceError Unit) : Move s (s.uploadEnded id port answer) := by
  cases answer with
  | ok _ =>
    rw [uploadEnded, Line.leaveUpload_eq
      (s := (s.note (.answered id none)).tell (.uploadSucceeded port)) h ht]
    exact .uploaded ht
  | error e =>
    rw [uploadEnded, Line.leaveUpload_eq
      (s := (s.note (.answered id (some e))).tell (.uploadFailed e)) h ht]
    exact .uploadFailed e ht

end Answers

/-! ### Steps -/

/-- The task that takes a step. What comes over a stream, and what a reader does,
is the step of no task. -/
def Action.task? : Action → Option Nat
  | .ask id _ | .proceed id | .listed id _ | .opened id _ | .closed id _ | .uploaded id _ =>
    some id
  | .line .. | .hangUp _ | .read _ => none

/-- What a task does next where it is, by itself or when the bridge has answered. -/
inductive Onward (s : Session) (id : Nat) : Job → Stage → Session → Prop
  | enter (job : Job) : Onward s id job .granted (s.enter id job)
  | close {job : Job} {monitor : Monitor} : s.reader? monitor.epoch = none →
      Onward s id job (.joining monitor) (s.call id .stopSerial (.closing monitor))
  | listed {job : Job} (answer : Except DeviceError (List String)) :
      Onward s id job .listing (s.listed id answer)
  | opened {port : String} (answer : Except DeviceError Unit) :
      Onward s id (.monitor port) .opening (s.opened id port answer)
  | closed {job : Job} {monitor : Monitor} (answer : Except DeviceError Unit) :
      Onward s id job (.closing monitor) (s.closed id job monitor answer)
  | uploaded {source port : String} {board : Board} (answer : Except DeviceError Unit) :
      Onward s id (.upload source board port) .uploading (s.uploadEnded id port answer)

section Steps

variable {a : Action} {id : Nat} {job : Job} {stage : Stage}

/-- Whoever asks has nothing under way. -/
theorem ask_of_step? {request : Request} (hstep : s.step? (.ask id request) = some u) :
    s.task? id = none ∧ u = s.ask id request := by
  simp only [step?] at hstep
  split at hstep
  next => cases hstep
  next hnew => exact ⟨Option.not_isSome_iff_eq_none.mp hnew, (Option.some.inj hstep).symm⟩

/-- What goes on by itself. -/
theorem onward_of_proceed? (hproceed : s.proceed? ⟨id, job, stage⟩ = some u) :
    s.Onward id job stage u := by
  cases stage with
  | granted =>
    cases hproceed
    exact .enter job
  | joining monitor =>
    simp only [proceed?] at hproceed
    split at hproceed
    next => cases hproceed
    next hended =>
      cases hproceed
      exact .close (Option.not_isSome_iff_eq_none.mp hended)
  | queued | listing | opening | closing | uploading => cases hproceed

/-- A task takes a step when it asks, or goes on from where it is. An answer is
heeded only at the stage that waits for it. -/
theorem own_step (hstep : s.step? a = some u) (ha : a.task? = some id) :
    (∃ request, a = .ask id request) ∨
      ∃ job stage, s.task? id = some ⟨id, job, stage⟩ ∧ s.Onward id job stage u := by
  cases a with
  | ask _ request =>
    cases ha
    exact .inl ⟨request, rfl⟩
  | proceed =>
    cases ha
    obtain ⟨⟨_, job, stage⟩, ht, hproceed⟩ := Option.bind_eq_some_iff.mp hstep
    obtain rfl := id_of_task? ht
    exact .inr ⟨job, stage, ht, onward_of_proceed? hproceed⟩
  | listed _ answer =>
    cases ha
    obtain ⟨⟨_, job, stage⟩, ht, hlisted⟩ := Option.bind_eq_some_iff.mp hstep
    obtain rfl := id_of_task? ht
    split at hlisted
    next hstage =>
      cases hlisted
      cases hstage
      exact .inr ⟨job, .listing, ht, .listed answer⟩
    next => cases hlisted
  | opened _ answer =>
    cases ha
    obtain ⟨t, ht, hopened⟩ := Option.bind_eq_some_iff.mp hstep
    split at hopened
    next port =>
      cases hopened
      obtain rfl := id_of_task? ht
      exact .inr ⟨.monitor port, .opening, ht, .opened answer⟩
    next => cases hopened
  | closed _ answer =>
    cases ha
    obtain ⟨t, ht, hclosed⟩ := Option.bind_eq_some_iff.mp hstep
    split at hclosed
    next job monitor =>
      cases hclosed
      obtain rfl := id_of_task? ht
      exact .inr ⟨job, .closing monitor, ht, .closed answer⟩
    next => cases hclosed
  | uploaded _ answer =>
    cases ha
    obtain ⟨t, ht, huploaded⟩ := Option.bind_eq_some_iff.mp hstep
    split at huploaded
    next port =>
      cases huploaded
      obtain rfl := id_of_task? ht
      exact .inr ⟨.upload _ _ port, .uploading, ht, .uploaded answer⟩
    next => cases huploaded
  | line | hangUp | read => cases ha

/-- Whoever goes on is the first in line. -/
theorem Line.first_of_onward (h : s.Line) (ht : s.task? id = some ⟨id, job, stage⟩)
    (hgoes : s.Onward id job stage u) : ∃ rest, s.tasks = ⟨id, job, stage⟩ :: rest := by
  refine (h.first_of_task? ht ?_).2
  rintro rfl
  cases hgoes

theorem Line.onward (h : s.Line) (ht : s.task? id = some ⟨id, job, stage⟩)
    (hgoes : s.Onward id job stage u) : Move s u := by
  obtain ⟨rest, hrest⟩ := h.first_of_onward ht hgoes
  cases hgoes with
  | enter => exact h.enter hrest
  | close hended =>
    rw [h.call_eq hrest]
    exact .close hrest hended
  | listed answer => exact h.listed hrest answer
  | opened answer => exact h.opened hrest answer
  | closed answer => exact h.closed hrest answer
  | uploaded answer => exact h.uploaded hrest answer

/-- Whatever happens in a session, it is a move or two. -/
theorem Line.moves (h : s.Line) (hstep : s.step? a = some u) : Moves s u := by
  cases hactor : a.task? with
  | some id =>
    rcases own_step hstep hactor with ⟨request, rfl⟩ | ⟨job, stage, ht, hgoes⟩
    · obtain ⟨hnew, rfl⟩ := ask_of_step? hstep
      exact h.ask (by simpa [task?] using hnew) request
    · exact .single (h.onward ht hgoes)
  | none =>
    cases a with
    | line epoch text =>
      simp only [step?] at hstep
      split at hstep
      next hopen =>
        cases hstep
        exact .single (.lineArrived text hopen)
      next => cases hstep
    | hangUp epoch =>
      simp only [step?] at hstep
      split at hstep
      next hopen =>
        cases hstep
        exact .single (.hangUp hopen)
      next => cases hstep
    | read epoch =>
      obtain ⟨r, hr, hread⟩ := Option.bind_eq_some_iff.mp hstep
      exact .single (read_move (List.mem_of_find?_eq_some hr) hread)
    | ask | proceed | listed | opened | closed | uploaded => cases hactor

end Steps

theorem line_start : start.Line :=
  InLine.nil

theorem Moves.keep {I : Session → Prop} (hmove : ∀ s u, s.Line → I s → Move s u → I u)
    (hline : s.Line) (hs : I s) (moves : Moves s u) : u.Line ∧ I u := by
  induction moves with
  | refl => exact ⟨hline, hs⟩
  | tail _ m ih => exact ⟨m.keeps_line ih.1, hmove _ _ ih.1 ih.2 m⟩

theorem Run.keep {I : Session → Prop} (hmove : ∀ s u, s.Line → I s → Move s u → I u)
    (hline : s.Line) (hs : I s) (run : Run s u) : u.Line ∧ I u := by
  induction run with
  | refl => exact ⟨hline, hs⟩
  | step _ hstep ih =>
    obtain ⟨hline', hs'⟩ := ih
    exact (hline'.moves hstep).keep hmove hline' hs'

/-- What has happened between two sessions, the last first. -/
def news (s u : Session) : List Happening :=
  u.history.take (u.history.length - s.history.length)

theorem news_eq {new : List Happening} (h : u.history = new ++ s.history) : s.news u = new := by
  simp [news, h]

def stepAll? (s : Session) (actions : List Action) : Option Session :=
  actions.foldlM step? s

theorem Run.trans {v : Session} (run : Run s u) (run' : Run u v) : Run s v := by
  induction run' with
  | refl => exact run
  | step _ hstep ih => exact .step ih hstep

theorem Run.head {t : Session} {a : Action} (hstep : s.step? a = some t) (run : Run t u) :
    Run s u :=
  (Run.step (.refl s) hstep).trans run

theorem Run.of_stepAll? {actions : List Action} (h : s.stepAll? actions = some u) : Run s u := by
  induction actions generalizing s with
  | nil =>
    cases h
    exact .refl _
  | cons a rest ih =>
    rw [stepAll?, List.foldlM_cons] at h
    obtain ⟨t, hstep, hrest⟩ := Option.bind_eq_some_iff.mp h
    exact .head hstep (ih hrest)

/-- A session that comes out of some steps at the start. -/
theorem exists_run (actions : List Action) (p : Session → Prop) [DecidablePred p]
    (h : (start.stepAll? actions).any (fun s => p s) = true) : ∃ s, Run start s ∧ p s := by
  obtain ⟨s, hs, hp⟩ := (Option.any_eq_true _ _).mp h
  exact ⟨s, .of_stepAll? hs, of_decide_eq_true hp⟩

end Session

end BlockSketch
