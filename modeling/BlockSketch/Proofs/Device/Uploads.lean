import BlockSketch.Proofs.Device.Calls
import BlockSketch.Proofs.Device.Consistency
import BlockSketch.Proofs.Device.Readers

/-!
What becomes of a request to upload. While one upload is under way, which it is
from the moment it is asked for, whatever it waits for, another one is ignored.
Every other upload waits for the port, takes the monitor away that it finds then,
and asks the bridge once to upload what it was given; if the monitor cannot be
stopped, it ends with that. Requests may come at any time, and what happens
between the steps of an upload does not change its course.
-/

namespace BlockSketch

def Request.isUpload : Request → Bool
  | .upload .. => true
  | _ => false

/-- The uploads that have been asked for and have not ended, in the order of
asking. -/
def underWay : List Happening → List Nat
  | [] => []
  | .asked id request :: before =>
    if request.isUpload then underWay before ++ [id] else underWay before
  | .finished id _ :: before => (underWay before).filter fun n => n ≠ id
  | _ :: before => underWay before

namespace Session

variable {s u v : Session} {id : Nat} {actions : List Action}

/-! ### The flag -/

theorem isUpload_receive {request : Request} {job : Job} (h : s.receive request = .ok job) :
    job.isUpload = request.isUpload := by
  cases request with
  | list | monitor =>
    simp only [receive] at h
    split at h <;> cases h
    rfl
  | stop =>
    cases h
    rfl
  | upload source boardId port =>
    simp only [receive] at h
    split at h
    · cases h
    · split at h <;> cases h
      rfl

def uploadsIn (tasks : List Task) : List Nat :=
  (tasks.filter Task.isUpload).map Task.id

theorem uploadsIn_cons (id : Nat) (job : Job) (stage : Stage) (rest : List Task) :
    uploadsIn (⟨id, job, stage⟩ :: rest) =
      if job.isUpload then id :: uploadsIn rest else uploadsIn rest := by
  cases hjob : job.isUpload <;> simp [uploadsIn, Task.isUpload, hjob]

theorem uploadsIn_moveUp (rest : List Task) : uploadsIn (moveUp rest) = uploadsIn rest := by
  cases rest with
  | nil => rfl
  | cons => rw [moveUp, uploadsIn_cons, uploadsIn_cons]

theorem uploadsIn_append (tasks : List Task) (id : Nat) (job : Job) (stage : Stage) :
    uploadsIn (tasks ++ [⟨id, job, stage⟩]) =
      if job.isUpload then uploadsIn tasks ++ [id] else uploadsIn tasks := by
  cases hjob : job.isUpload <;> simp [uploadsIn, Task.isUpload, hjob]

theorem filter_uploadsIn {tasks : List Task} (h : ∀ t ∈ tasks, t.id ≠ id) :
    (uploadsIn tasks).filter (fun n => n ≠ id) = uploadsIn tasks := by
  refine List.filter_eq_self.mpr fun n hn => ?_
  obtain ⟨t, ht, rfl⟩ := List.mem_map.mp hn
  simpa using h t (List.mem_of_mem_filter ht)

/-- The uploads that have not ended are those among the tasks. -/
def Tracked (s : Session) : Prop :=
  underWay s.history = uploadsIn s.tasks

namespace Tracked

theorem departed (h : s.Tracked) (hline : s.Line) {job : Job} {stage : Stage}
    {rest : List Task} {outcome : Outcome} (ht : s.tasks = ⟨id, job, stage⟩ :: rest)
    (hhistory : underWay u.history = underWay s.history) :
    (u.departed rest id outcome).Tracked := by
  show (underWay u.history).filter (fun n => n ≠ id) = uploadsIn (moveUp rest)
  have hrest := filter_uploadsIn (hline.front ht).ne_of_mem
  rw [hhistory, h, ht, uploadsIn_moveUp, uploadsIn_cons]
  split
  · rw [List.filter_cons_of_neg (by simp), hrest]
  · exact hrest

theorem received (h : s.Tracked) {request : Request} {job : Job} (id : Nat) (stage : Stage)
    (hr : s.receive request = .ok job) :
    underWay (.asked id request :: s.history) = uploadsIn (s.tasks ++ [⟨id, job, stage⟩]) := by
  rw [uploadsIn_append, isUpload_receive hr, underWay, h]

theorem move (hline : s.Line) (h : s.Tracked) (m : Move s u) : u.Tracked := by
  cases m with
  | @refuse id request outcome hid =>
    have hthere := filter_uploadsIn hid
    show (underWay (.asked id request :: s.history)).filter (fun n => n ≠ id) = uploadsIn s.tasks
    rw [underWay, h]
    split
    · simpa using hthere
    · exact hthere
  | wait _ hr => exact h.received _ .queued hr
  | come id hr hnil =>
    have hcome := h.received id .granted hr
    rw [hnil] at hcome
    exact hcome
  | listBusy ht | monitorBusy ht | nothingToStop ht | listed _ ht | listFailed _ ht | opened ht
  | openFailed _ ht | stopped ht | stopFailed _ ht | teardownFailed _ ht | uploaded ht
  | uploadFailed _ ht =>
    exact h.departed hline ht rfl
  | list ht | openPort ht | teardown ht | upload ht | close ht | tornDown ht =>
    rw [Tracked, ht, uploadsIn_cons] at h
    exact h.trans (uploadsIn_cons ..).symm
  | lineArrived | hangUp | drop | pass | readerOver | monitorOver => exact h

end Tracked

/-- The flag is set while an upload has been asked for and has not ended. -/
theorem uploading_iff (hflagged : s.Flagged) (htracked : s.Tracked) :
    s.uploading = true ↔ underWay s.history ≠ [] := by
  have hlength : (underWay s.history).length = s.uploading.toNat := by
    rw [htracked, uploadsIn, List.length_map, ← List.countP_eq_length_filter]
    exact hflagged.flag
  cases hup : s.uploading with
  | true =>
    rw [hup] at hlength
    exact ⟨fun _ => List.ne_nil_of_length_pos (by simp [hlength]), fun _ => rfl⟩
  | false =>
    rw [hup] at hlength
    have hnil := List.eq_nil_of_length_eq_zero hlength
    simp [hnil]

/-! ### The course of an upload -/

def uploadBegin (id : Nat) (source : String) (board : Board) (port : String) : List Happening :=
  [.told (.uploadStarted port), .called id (.upload source board port)]

def uploadEnd (id : Nat) (port : String) : Except DeviceError Unit → List Happening
  | .ok () =>
    [.answered id none, .told (.uploadSucceeded port), .finished id (.uploaded .uploaded)]
  | .error e => [.answered id (some e), .told (.uploadFailed e), .finished id (.failed e)]

/-- What an upload does that has got the port, up to its end, if it finds a
monitor or none. -/
inductive UploadCourse (id : Nat) (source : String) (board : Board) (port : String) :
    Option Monitor → List Happening → Prop
  | direct (answer : Except DeviceError Unit) :
      UploadCourse id source board port none
        (uploadBegin id source board port ++ uploadEnd id port answer)
  | afterStop (monitor : Monitor) (answer : Except DeviceError Unit) :
      UploadCourse id source board port (some monitor)
        ([.called id .stopSerial, .answered id none, .told (.monitorStopped monitor.port)] ++
          uploadBegin id source board port ++ uploadEnd id port answer)
  | notStopped (monitor : Monitor) (e : DeviceError) :
      UploadCourse id source board port (some monitor)
        [.called id .stopSerial, .answered id (some e), .told (.uploadFailed e),
          .finished id (.failed e)]

/-- A task has come as far on one of some courses as its steps go, and it has ended
if it is at the end of it. Whenever it makes a call, nobody reads. -/
structure Follows (s : Session) (id : Nat) (c : Call) (actions : List Action) (v : Session)
    (courses : List Happening → Prop) : Prop where
  course : ∃ course, courses course ∧ s.deeds id actions <+: course ∧
    (v.task? id = none ↔ s.deeds id actions = course)
  alone : ∀ t ∈ s.ownSteps id actions, .called id c ∈ t.news → t.before.readers = []

namespace Follows

variable {c : Call} {courses next : List Happening → Prop}

/-- Whoever has ended has nothing left to do. -/
theorem done (hline : s.Line) (ht : s.task? id = none) (hsteps : s.stepAll? actions = some v)
    (hnot : NotAsked id actions) : s.Follows id c actions v (· = []) := by
  obtain ⟨hnone, hgone⟩ := hline.nothing_after ht hsteps hnot
  refine ⟨⟨[], rfl, ?_, ?_⟩, ?_⟩
  · simp [deeds, hnone]
  · simp [deeds, hnone, hgone]
  · simp [hnone]

/-- Whoever has taken no step is at the beginning of each course. -/
theorem stays (hnone : s.ownSteps id actions = []) (hthere : v.task? id ≠ none)
    {course : List Happening} (hcourse : courses course) (hne : course ≠ []) :
    s.Follows id c actions v courses := by
  refine ⟨⟨course, hcourse, ?_, ?_⟩, ?_⟩
  · simp [deeds, hnone]
  · simp [deeds, hnone, hthere, hne.symm]
  · simp [hnone]

/-- A step, and what comes after it. -/
theorem step {x y : Session} {a : Action} {later : List Action} (new : List Happening)
    (hown : s.ownSteps id actions = ⟨x, a, y⟩ :: y.ownSteps id later)
    (hnew : y.history = new.reverse ++ x.history) (hcall : .called id c ∈ new → x.readers = [])
    (h : y.Follows id c later v next) (hnext : ∀ course, next course → courses (new ++ course)) :
    s.Follows id c actions v courses := by
  obtain ⟨⟨course, hcourse, hbegin, hend⟩, halone⟩ := h
  have hdeeds := deeds_eq new hown hnew
  refine ⟨⟨new ++ course, hnext course hcourse, ?_, ?_⟩, fun t ht hmem => ?_⟩
  · rw [hdeeds]
    exact (List.prefix_append_right_inj new).mpr hbegin
  · rw [hdeeds, hend, List.append_cancel_left_eq]
  · rw [hown] at ht
    rcases List.mem_cons.mp ht with rfl | ht
    · exact hcall (Transition.news_eq hnew ▸ hmem)
    · exact halone t ht hmem

end Follows

section Course

variable {source port : String} {board : Board} {monitor : Monitor}

/-- An upload that waits for the answer of the bridge. -/
theorem Sound.uploading (h : s.Sound)
    (ht : s.task? id = some ⟨id, .upload source board port, .uploading⟩)
    (hsteps : s.stepAll? actions = some v) (hnot : NotAsked id actions) :
    s.Follows id (.upload source board port) actions v
      fun course => ∃ answer, course = uploadEnd id port answer := by
  rcases h.line.next_of_served ht (by simp) hsteps hnot with
    ⟨hnone, hthere⟩ | ⟨x, a, y, later, rest, hnext, hrest, hx⟩
  · exact .stays hnone hthere ⟨.ok (), rfl⟩ (List.cons_ne_nil _ _)
  · have hline := h.line.of_run hnext.run
    cases onward_of_step? hx hnext.step hnext.own with
    | uploaded answer =>
      have hgone := hline.gone hrest (hline.tasks_uploadEnded hrest port answer)
      have hdone := Follows.done (c := .upload source board port)
        (hline.of_run (.step (.refl x) hnext.step)) hgone hnext.rest hnext.notAsked.tail
      refine .step (uploadEnd id port answer) hnext.steps ?_ ?_ hdone ?_
      · cases answer with
        | ok =>
          rw [uploadEnded, Line.leaveUpload_eq (s := (x.note _).tell _) hline hrest]
          rfl
        | error =>
          rw [uploadEnded, Line.leaveUpload_eq (s := (x.note _).tell _) hline hrest]
          rfl
      · cases answer <;> simp [uploadEnd]
      · rintro course rfl
        exact ⟨answer, List.append_nil _⟩

/-- An upload that waits for the bridge to close the port of a monitor. -/
theorem Sound.closing (h : s.Sound)
    (ht : s.task? id = some ⟨id, .upload source board port, .closing monitor⟩)
    (hsteps : s.stepAll? actions = some v) (hnot : NotAsked id actions) :
    s.Follows id (.upload source board port) actions v fun course =>
      UploadCourse id source board port (some monitor) (.called id .stopSerial :: course) := by
  rcases h.line.next_of_served ht (by simp) hsteps hnot with
    ⟨hnone, hthere⟩ | ⟨x, a, y, later, rest, hnext, hrest, hx⟩
  · exact .stays hnone hthere (.afterStop monitor (.ok ())) (List.cons_ne_nil _ _)
  · have hsound := h.of_run hnext.run
    have hy := hsound.of_step hnext.step
    cases onward_of_step? hx hnext.step hnext.own with
    | closed answer =>
      have hnobody : x.readers = [] :=
        hsound.tended.readers_of_acting hsound.kept.orderly hrest (by simp) rfl
      cases answer with
      | ok =>
        have hclosed : x.closed id (.upload source board port) monitor (.ok ()) = _ :=
          Line.beginUpload_eq (s := x.portClosed id monitor) hsound.line hrest source board port
        have hgoes := hy.uploading (task?_of_first (by rw [hclosed])) hnext.rest hnext.notAsked.tail
        refine .step ([.answered id none, .told (.monitorStopped monitor.port)] ++
          uploadBegin id source board port) hnext.steps ?_ (fun _ => hnobody) hgoes ?_
        · rw [hclosed]
          rfl
        · rintro course ⟨answer, rfl⟩
          exact .afterStop monitor answer
      | error e =>
        have hclosed : x.closed id (.upload source board port) monitor (.error e) = _ :=
          Line.leaveUpload_eq (s := (x.note (.answered id (some e))).tell (.uploadFailed e))
            hsound.line hrest (.failed e)
        have hgone := hsound.line.gone hrest (congrArg Session.tasks hclosed)
        have hdone := Follows.done (c := .upload source board port) hy.line hgone hnext.rest
          hnext.notAsked.tail
        refine .step [.answered id (some e), .told (.uploadFailed e),
          .finished id (.failed e)] hnext.steps ?_ (fun _ => hnobody) hdone ?_
        · rw [hclosed]
          rfl
        · rintro course rfl
          exact .notStopped monitor e

/-- An upload that waits for the end of a reader. -/
theorem Sound.joining (h : s.Sound)
    (ht : s.task? id = some ⟨id, .upload source board port, .joining monitor⟩)
    (hsteps : s.stepAll? actions = some v) (hnot : NotAsked id actions) :
    s.Follows id (.upload source board port) actions v
      (UploadCourse id source board port (some monitor)) := by
  rcases h.line.next_of_served ht (by simp) hsteps hnot with
    ⟨hnone, hthere⟩ | ⟨x, a, y, later, rest, hnext, hrest, hx⟩
  · exact .stays hnone hthere (.afterStop monitor (.ok ())) (List.cons_ne_nil _ _)
  · have hsound := h.of_run hnext.run
    have hy := hsound.of_step hnext.step
    cases onward_of_step? hx hnext.step hnext.own with
    | close =>
      have hcall := hsound.line.call_eq hrest .stopSerial (.closing monitor)
      have hgoes := hy.closing (task?_of_first (by rw [hcall])) hnext.rest hnext.notAsked.tail
      exact .step [.called id .stopSerial] hnext.steps (by rw [hcall]; rfl) (by simp) hgoes
        fun _ hcourse => hcourse

def atBoard (s : Session) (id : Nat) : Bool :=
  (s.task? id).any fun t => t.stage ≠ .queued ∧ t.stage ≠ .granted

/-- The session that a task finds when it has got the port. -/
def gotPort (s : Session) (id : Nat) (actions : List Action) : Option Session :=
  ((s.ownSteps id actions).find? fun t => t.after.atBoard id).map Transition.before

/-- An upload gets the port: it is at the board, and follows the course that
belongs to the monitor that it finds. -/
theorem Sound.entering {rest : List Task} (h : s.Sound)
    (ht : s.tasks = ⟨id, .upload source board port, .granted⟩ :: rest)
    (hu : u = s.enter id (.upload source board port)) (hsound : u.Sound)
    (hsteps : u.stepAll? actions = some v) (hnot : NotAsked id actions) :
    u.atBoard id = true ∧ ∃ new next, u.history = new.reverse ++ s.history ∧
      (.called id (.upload source board port) ∈ new → s.readers = []) ∧
      u.Follows id (.upload source board port) actions v next ∧
      ∀ course, next course → UploadCourse id source board port s.monitor (new ++ course) := by
  cases hm : s.monitor with
  | none =>
    have henter :
        u = ({ s with phase := .uploading } : Session).beginUpload id source board port := by
      simp only [hu, Session.enter, hm]
    rw [Line.beginUpload_eq (s := { s with phase := .uploading }) h.line ht] at henter
    have hfirst : u.task? id = some ⟨id, .upload source board port, .uploading⟩ :=
      task?_of_first (by rw [henter])
    refine ⟨by simp [atBoard, hfirst], uploadBegin id source board port, _, by rw [henter]; rfl,
      fun _ => h.tended.readers_of_granted ht rfl hm, hsound.uploading hfirst hsteps hnot, ?_⟩
    rintro course ⟨answer, rfl⟩
    exact .direct answer
  | some monitor =>
    have henter : u = ({ s with phase := .uploading } : Session).beginTeardown id monitor := by
      simp only [hu, Session.enter, hm]
    rw [Line.beginTeardown_eq (s := { s with phase := .uploading }) h.line ht] at henter
    have hfirst : u.task? id = some ⟨id, .upload source board port, .joining monitor⟩ :=
      task?_of_first (by rw [henter])
    exact ⟨by simp [atBoard, hfirst], [], _, by rw [henter]; rfl, by simp,
      hsound.joining hfirst hsteps hnot, fun _ hcourse => hcourse⟩

/-- An upload in line goes nowhere until it gets the port. -/
theorem Sound.waiting (h : s.Sound)
    (ht : s.task? id = some ⟨id, .upload source board port, .queued⟩)
    (hsteps : s.stepAll? actions = some v) (hnot : NotAsked id actions) :
    (s.gotPort id actions = none ∧ s.ownSteps id actions = [] ∧ v.task? id ≠ none) ∨
      ∃ x, s.gotPort id actions = some x ∧ s.Follows id (.upload source board port) actions v
        (UploadCourse id source board port x.monitor) := by
  rcases h.line.next_of_queued ht hsteps hnot with
    ⟨hnone, hthere⟩ | ⟨x, a, y, later, rest, hnext, hrest, henter⟩
  · exact .inl ⟨by simp [gotPort, hnone], hnone, hthere⟩
  · have hsound := h.of_run hnext.run
    obtain ⟨hboard, new, next, hnew, hcall, hgoes, hcourses⟩ := hsound.entering hrest henter
      (hsound.of_step hnext.step) hnext.rest hnext.notAsked.tail
    exact .inr ⟨x, by simp [gotPort, hnext.steps, hboard],
      .step new hnext.steps hnew hcall hgoes hcourses⟩

end Course

/-! ### What comes of a request -/

/-- The bridge owes no answer, and nothing goes on by itself. -/
structure AtRest (s : Session) : Prop where
  answered : (Ledger.of s.history).awaited = []
  tasks : ∀ id, s.step? (.proceed id) = none
  readers : ∀ epoch, s.step? (.read epoch) = none

/-- What comes of a request to upload in a session: `later` is what is done after
it, and `v` the session then. It is ignored, and nothing changes, exactly when
another upload was asked for and has not ended. Otherwise it waits until it gets
the port, and then follows a course for the monitor that it finds, to its end.
When the bridge is asked to upload, all readers have ended, and it has answered
all that it was asked before. When nothing goes on any more, the upload has ended. -/
structure UploadAsked (s : Session) (id : Nat) (source boardId port : String) (board : Board)
    (later : List Action) (v : Session) : Prop where
  ignored_iff : .finished id (.uploaded .alreadyUploading) ∈
      s.deeds id (.ask id (.upload source boardId port) :: later) ↔ underWay s.history ≠ []
  ignored : underWay s.history ≠ [] →
    s.step? (.ask id (.upload source boardId port)) = some { s with
      history := .finished id (.uploaded .alreadyUploading) ::
        .asked id (.upload source boardId port) :: s.history } ∧
    s.deeds id (.ask id (.upload source boardId port) :: later) =
      [.asked id (.upload source boardId port), .finished id (.uploaded .alreadyUploading)]
  waits : underWay s.history = [] →
    s.gotPort id (.ask id (.upload source boardId port) :: later) = none →
    s.deeds id (.ask id (.upload source boardId port) :: later) =
      [.asked id (.upload source boardId port)] ∧ v.task? id ≠ none
  goes : underWay s.history = [] → ∀ x,
    s.gotPort id (.ask id (.upload source boardId port) :: later) = some x →
    ∃ course, UploadCourse id source board port x.monitor course ∧
      s.deeds id (.ask id (.upload source boardId port) :: later) <+:
        .asked id (.upload source boardId port) :: course ∧
      (v.task? id = none ↔ s.deeds id (.ask id (.upload source boardId port) :: later) =
        .asked id (.upload source boardId port) :: course)
  alone : ∀ t ∈ s.ownSteps id (.ask id (.upload source boardId port) :: later),
    .called id (.upload source board port) ∈ t.news → t.before.readers = []
  oneByOne : ∀ task c before, .called task c :: before <:+ v.history →
    (Ledger.of before).awaited = []
  ends : v.AtRest → v.task? id = none

theorem AtRest.tasks_eq_nil (h : s.AtRest) (hflagged : s.Flagged) (hsound : s.Sound) :
    s.tasks = [] := by
  by_contra hne
  obtain ⟨id, -, hgoes | ⟨epoch, u, hread, -⟩⟩ :=
    hflagged.goesOn hsound.line hsound.kept hne h.answered
  · simp [h.tasks id] at hgoes
  · simp [h.readers epoch] at hread

/-- An upload ends either well or with an error, and never as one that is ignored. -/
theorem UploadCourse.not_ignored {source port : String} {board : Board} {found : Option Monitor}
    {course : List Happening} (h : UploadCourse id source board port found course) :
    .finished id (.uploaded .alreadyUploading) ∉ course := by
  cases h with
  | direct answer | afterStop _ answer => cases answer <;> simp [uploadBegin, uploadEnd]
  | notStopped => simp

section Asked

variable {source boardId port : String} {board : Board} {later : List Action}

/-- A request to upload that is not ignored waits behind the others, or gets the
port at once. -/
theorem Sound.asked (h : s.Sound) (hboard : Board.resolve boardId = .ok board)
    (hflag : s.uploading = false)
    (hstep : s.step? (.ask id (.upload source boardId port)) = some u)
    (hsteps : u.stepAll? later = some v) (hnot : NotAsked id later) :
    let actions : List Action := .ask id (.upload source boardId port) :: later
    (s.gotPort id actions = none ∧
      s.deeds id actions = [.asked id (.upload source boardId port)] ∧ v.task? id ≠ none) ∨
    ∃ x, s.gotPort id actions = some x ∧ s.Follows id (.upload source board port) actions v
      fun course => ∃ others, UploadCourse id source board port x.monitor others ∧
        course = .asked id (.upload source boardId port) :: others := by
  intro actions
  set request : Request := .upload source boardId port with hrequest
  set job : Job := .upload source board port with hjob
  have hr : s.receive request = .ok job := by simp [hrequest, receive, hboard, hflag, hjob]
  have hown : s.ownSteps id actions = ⟨s, .ask id request, u⟩ :: u.ownSteps id later :=
    ownSteps_cons hstep rfl
  have hu := h.of_step hstep
  rcases h.line.asked hstep hr with ⟨hnil, henter⟩ | ⟨hlast, hqueued⟩
  · -- Nobody is in line: the task comes, and goes on in the same step.
    have hcome : (s.withFirst id request job).Sound := h.move (.come id hr hnil)
    obtain ⟨hat, new, next, hhistory, hcall, hgoes, hcourses⟩ :=
      hcome.entering rfl henter hu hsteps hnot
    refine .inr ⟨s, by simp [gotPort, hown, hat], ?_⟩
    refine .step (.asked id request :: new) hown ?_ ?_ hgoes ?_
    · rw [hhistory]
      simp [withFirst, received]
    · intro hmem
      exact hcall (by simpa using hmem)
    · intro course hcourse
      exact ⟨_, hcourses course hcourse, rfl⟩
  · have hhistory : u.history = [.asked id request] ++ s.history := by
      rw [hlast]
      rfl
    have hport : s.gotPort id actions = u.gotPort id later := by
      simp [gotPort, hown, atBoard, hqueued]
    rw [hport]
    rcases hu.waiting hqueued hsteps hnot with ⟨hnone, hsteps', hthere⟩ | ⟨x, hx, hgoes⟩
    · refine .inl ⟨hnone, ?_, hthere⟩
      rw [deeds_eq [.asked id request] hown hhistory, deeds, hsteps']
      rfl
    · exact .inr ⟨x, hx, .step [.asked id request] hown hhistory (by simp) hgoes
        fun course hcourse => ⟨course, hcourse, rfl⟩⟩

/-- A request to upload that is ignored ends at once, and changes nothing. -/
theorem Sound.ignored (h : s.Sound) (hboard : Board.resolve boardId = .ok board)
    (hflag : s.uploading = true)
    (hstep : s.step? (.ask id (.upload source boardId port)) = some u)
    (hsteps : u.stepAll? later = some v) (hnot : NotAsked id later) :
    u = { s with
      history := .finished id (.uploaded .alreadyUploading) ::
        .asked id (.upload source boardId port) :: s.history } ∧
    s.deeds id (.ask id (.upload source boardId port) :: later) =
      [.asked id (.upload source boardId port), .finished id (.uploaded .alreadyUploading)] := by
  have hr : s.receive (.upload source boardId port) = .error (.uploaded .alreadyUploading) := by
    simp [receive, hboard, hflag]
  obtain ⟨heq, hgone⟩ := refused hstep hr
  have hnothing := ((h.of_step hstep).line.nothing_after hgone hsteps hnot).1
  refine ⟨heq, ?_⟩
  rw [deeds_eq [.asked id (.upload source boardId port),
    .finished id (.uploaded .alreadyUploading)] (ownSteps_cons hstep rfl) (by rw [heq]; rfl),
    deeds, hnothing]
  rfl

/-- Whatever else is asked and happens, a request to upload is ignored while
another upload has been asked for and has not ended, and nothing comes of it.
Otherwise it waits for the port, and then asks the bridge once to upload what it
was given, unless there is a monitor that cannot be stopped. No reader is left
then, and the bridge is asked one thing at a time. -/
theorem reached_upload_asked (run : Run start s) (hboard : Board.resolve boardId = .ok board)
    (hsteps : s.stepAll? (.ask id (.upload source boardId port) :: later) = some v)
    (hnot : NotAsked id later) : UploadAsked s id source boardId port board later v := by
  have h := Sound.start.of_run run
  have hv := h.of_run (.of_stepAll? hsteps)
  obtain ⟨hflagged, htracked⟩ := (run.keep (I := fun s => s.Flagged ∧ s.Tracked)
    (fun _ _ hline h m => ⟨h.1.move m, h.2.move hline m⟩) line_start ⟨.start, rfl⟩).2
  obtain ⟨-, -, hflagged', hone⟩ := (run.trans (.of_stepAll? hsteps)).with_kept
    (I := fun s => s.Flagged ∧ Ledger.OneByOne s.history) ⟨.start, trivial⟩
    fun _ _ _ hk h m => ⟨h.1.move m, oneByOne_move hk h.2 m⟩
  have hflag := uploading_iff hflagged htracked
  have honeByOne : ∀ task c before, .called task c :: before <:+ v.history →
      (Ledger.of before).awaited = [] :=
    fun _ _ _ hsuffix => (hone.of_suffix hsuffix).1 rfl
  have hends : v.AtRest → v.task? id = none := fun hrest => by
    simp [task?, hrest.tasks_eq_nil hflagged' hv]
  obtain ⟨u, hstep, hlater⟩ := exists_of_stepAll?_cons hsteps
  cases hup : s.uploading with
  | true =>
    have hunder := hflag.mp hup
    obtain ⟨heq, hdeeds⟩ := h.ignored hboard hup hstep hlater hnot
    refine ⟨by simp [hdeeds, hunder], fun _ => ⟨hstep.trans (congrArg some heq), hdeeds⟩,
      fun hfree => absurd hfree hunder, fun hfree => absurd hfree hunder, ?_, honeByOne, hends⟩
    intro t ht hmem
    simpa [hdeeds] using mem_deeds ht hmem
  | false =>
    have hfree : underWay s.history = [] := by
      by_contra hne
      cases hup.symm.trans (hflag.mpr hne)
    rcases h.asked hboard hup hstep hlater hnot with ⟨hnone, hdeeds, hthere⟩ | ⟨x, hx, hgoes⟩
    · refine ⟨by simp [hdeeds, hfree], fun hne => absurd hfree hne, fun _ _ => ⟨hdeeds, hthere⟩,
        fun _ x hx => ?_, ?_, honeByOne, hends⟩
      · cases hnone.symm.trans hx
      · intro t ht hmem
        simpa [hdeeds] using mem_deeds ht hmem
    · obtain ⟨⟨_, ⟨course, hcourse, rfl⟩, hbegin, hend⟩, halone⟩ := hgoes
      refine ⟨⟨fun hmem => ?_, fun hne => absurd hfree hne⟩, fun hne => absurd hfree hne,
        fun _ hnone => ?_, fun _ y hy => ?_, halone, honeByOne, hends⟩
      · rcases List.mem_cons.mp (hbegin.subset hmem) with hasked | hcourse'
        · cases hasked
        · exact absurd hcourse' hcourse.not_ignored
      · cases hnone.symm.trans hx
      · cases hx.symm.trans hy
        exact ⟨course, hcourse, hbegin, hend⟩

/-- An upload has begun to stop a monitor: a second upload comes, and a request to
stop and one for the ports; a line arrives that nobody will read; the upload goes on
when the reader has ended and the port has been closed, and fails. -/
def meanwhile : List Action :=
  [.ask 2 (.upload "other" "uno" "COM3"), .line 1 "late", .ask 3 .stop, .read 1, .proceed 1,
    .ask 4 .list, .closed 1 (.ok ()), .uploaded 1 (.error (.upload "COM4" "no answer")), .proceed 3]

/-- An upload that finds a monitor with a line unread stops it first, and the upload
that comes meanwhile is ignored. -/
theorem reached_upload_asked_of_monitored :
    ∃ s v, Run start s ∧ s.monitor = some ⟨"COM3", 1⟩ ∧
      (s.reader? 1).map Reader.arrived = some ["early"] ∧
      s.stepAll? (.ask 1 (.upload "sketch" "uno" "COM4") :: meanwhile) = some v ∧
      v.task? 1 = none ∧ UploadAsked s 1 "sketch" "uno" "COM4" .uno meanwhile v := by
  obtain ⟨s, run, hm, hreader, hmore⟩ :=
    exists_run [.ask 0 (.monitor "COM3"), .opened 0 (.ok ()), .line 1 "early"]
      (fun s => s.monitor = some ⟨"COM3", 1⟩ ∧
        (s.reader? 1).map Reader.arrived = some ["early"] ∧
        (s.stepAll? (.ask 1 (.upload "sketch" "uno" "COM4") :: meanwhile)).any
          (fun v => v.task? 1 = none) = true)
      (by decide +kernel)
  obtain ⟨v, hsteps, hend⟩ := (Option.any_eq_true _ _).mp hmore
  exact ⟨s, v, run, hm, hreader, hsteps, of_decide_eq_true hend,
    reached_upload_asked run rfl hsteps (by simp [NotAsked, meanwhile])⟩

end Asked

end Session

end BlockSketch
