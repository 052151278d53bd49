import BlockSketch.Proofs.Device.Moves

/-!
One call among many. Whoever has asked something of a session sees only what
comes of it, while others ask, lines arrive and readers read in between. A run
is therefore taken apart: the steps that a task takes itself, and what happens in
them, and the steps of all others, which leave a task where it is, except that
they hand it the port when it is next.
-/

namespace BlockSketch.Session

structure Transition where
  before : Session
  action : Action
  after : Session

def Transition.news (t : Transition) : List Happening :=
  (t.before.news t.after).reverse

def transitions (s : Session) : List Action → List Transition
  | [] => []
  | a :: rest =>
    match s.step? a with
    | some u => ⟨s, a, u⟩ :: u.transitions rest
    | none => []

/-- The steps that a task takes itself. -/
def ownSteps (s : Session) (id : Nat) (actions : List Action) : List Transition :=
  (s.transitions actions).filter fun t => t.action.task? = some id

/-- What a task does: all that happens in its own steps, the first first. -/
def deeds (s : Session) (id : Nat) (actions : List Action) : List Happening :=
  (s.ownSteps id actions).flatMap Transition.news

variable {s u v : Session} {id : Nat} {a : Action} {actions : List Action}

theorem Line.of_run (h : s.Line) (run : Run s u) : u.Line :=
  (run.keep (I := fun _ => True) (fun _ _ _ _ _ => trivial) h trivial).1

theorem exists_of_stepAll?_cons (h : s.stepAll? (a :: actions) = some v) :
    ∃ u, s.step? a = some u ∧ u.stepAll? actions = some v := by
  rw [stepAll?, List.foldlM_cons] at h
  exact Option.bind_eq_some_iff.mp h

theorem ownSteps_cons (hstep : s.step? a = some u) (ha : a.task? = some id) :
    s.ownSteps id (a :: actions) = ⟨s, a, u⟩ :: u.ownSteps id actions := by
  simp [ownSteps, transitions, hstep, ha]

theorem ownSteps_cons_of_ne (hstep : s.step? a = some u) (ha : a.task? ≠ some id) :
    s.ownSteps id (a :: actions) = u.ownSteps id actions := by
  simp [ownSteps, transitions, hstep, ha]

theorem Transition.news_eq {new : List Happening} (h : u.history = new.reverse ++ s.history) :
    Transition.news ⟨s, a, u⟩ = new := by
  rw [Transition.news, Session.news_eq h, List.reverse_reverse]

/-- A task does what it does in its next step, and then what it does later. -/
theorem deeds_eq {x y : Session} {later : List Action} (new : List Happening)
    (hown : s.ownSteps id actions = ⟨x, a, y⟩ :: y.ownSteps id later)
    (hnew : y.history = new.reverse ++ x.history) :
    s.deeds id actions = new ++ y.deeds id later := by
  rw [deeds, hown, List.flatMap_cons, Transition.news_eq hnew]
  rfl

/-- What comes out of a step of a run comes out of the run until then. -/
theorem run_after {t : Transition} (ht : t ∈ s.transitions actions) : Run s t.after := by
  induction actions generalizing s with
  | nil => cases ht
  | cons a rest ih =>
    simp only [transitions] at ht
    split at ht
    next u hstep =>
      rcases List.mem_cons.mp ht with rfl | ht
      · exact .step (.refl s) hstep
      · exact .head hstep (ih ht)
    next => cases ht

theorem mem_deeds {t : Transition} {h : Happening} (ht : t ∈ s.ownSteps id actions)
    (hmem : h ∈ t.news) : h ∈ s.deeds id actions :=
  List.mem_flatMap.mpr ⟨t, ht, hmem⟩

/-! ### The steps of others -/

/-- What a step of a task makes of the line. -/
inductive Reshapes (id : Nat) : List Task → List Task → Prop
  | same (tasks : List Task) : Reshapes id tasks tasks
  | comes (tasks : List Task) (job : Job) (stage : Stage) :
      Reshapes id tasks (tasks ++ [⟨id, job, stage⟩])
  | goesOn (job : Job) (stage next : Stage) (rest : List Task) :
      Reshapes id (⟨id, job, stage⟩ :: rest) (⟨id, job, next⟩ :: rest)
  | leaves (job : Job) (stage : Stage) (rest : List Task) :
      Reshapes id (⟨id, job, stage⟩ :: rest) (moveUp rest)

/-- A task stays where it is, or is handed the port. -/
def Stays (s : Session) (id : Nat) (u : Session) : Prop :=
  u.task? id = s.task? id ∨
    ∃ job, s.task? id = some ⟨id, job, .queued⟩ ∧ u.task? id = some ⟨id, job, .granted⟩

/-- Whoever is not the one that takes the step stays. -/
theorem Line.stays_of_reshapes (h : s.Line) {actor : Nat} (hne : actor ≠ id)
    (hshape : Reshapes actor s.tasks u.tasks) : s.Stays id u := by
  have hqueued := h.queued
  unfold Stays
  simp only [task?]
  generalize s.tasks = tasks at hshape hqueued
  generalize u.tasks = tasks' at hshape
  cases hshape with
  | same => exact .inl rfl
  | comes _ job stage =>
    left
    rw [List.find?_append]
    simp [hne]
  | goesOn => exact .inl (by simp [hne])
  | leaves job stage rest =>
    cases rest with
    | nil => exact .inl (by simp [moveUp, hne])
    | cons next others =>
      obtain ⟨nextId, nextJob, nextStage⟩ := next
      obtain rfl : nextStage = .queued := hqueued _ List.mem_cons_self
      by_cases hnext : nextId = id
      · exact .inr ⟨nextJob, by simp [hne, hnext], by simp [moveUp, hnext]⟩
      · exact .inl (by simp [moveUp, hne, hnext])

section Shapes

variable {job : Job} {stage : Stage} {rest : List Task}

/-- Whoever gets the port goes on with it, or leaves. -/
theorem Line.tasks_enter (h : s.Line) (ht : s.tasks = ⟨id, job, .granted⟩ :: rest) :
    (∃ next, (s.enter id job).tasks = ⟨id, job, next⟩ :: rest) ∨
      (s.enter id job).tasks = moveUp rest := by
  cases job with
  | list =>
    simp only [Session.enter]
    split
    · exact .inl ⟨_, by rw [Line.call_eq (s := { s with phase := .listing }) h ht]⟩
    · exact .inr (by rw [h.leave_eq ht]; rfl)
  | monitor port =>
    simp only [Session.enter]
    split
    · exact .inl ⟨_, by rw [h.call_eq ht]⟩
    · exact .inr (by rw [h.leave_eq ht]; rfl)
  | stop =>
    simp only [Session.enter]
    split
    · exact .inl ⟨_, by rw [h.beginTeardown_eq ht]⟩
    · exact .inr (by rw [h.leave_eq ht]; rfl)
  | upload source board port =>
    simp only [Session.enter]
    split
    · exact .inl ⟨_, by rw [Line.beginTeardown_eq (s := { s with phase := .uploading }) h ht]⟩
    · exact .inl ⟨_, by rw [Line.beginUpload_eq (s := { s with phase := .uploading }) h ht]⟩

theorem Line.reshapes_ask (h : s.Line) (hid : ∀ t ∈ s.tasks, t.id ≠ id) (request : Request) :
    Reshapes id s.tasks (s.ask id request).tasks := by
  rw [ask_eq]
  cases s.receive request with
  | error outcome =>
    simp only [finish, note, filter_of_ne hid]
    exact .same _
  | ok job =>
    by_cases ht : s.tasks = []
    · -- Whoever finds nobody in line comes and goes on, or comes and leaves.
      have hnil : InLine [] s.holder s.waiting := ht ▸ h
      let come : Session := ({ s with
        holder := some id
        tasks := [⟨id, job, .granted⟩] } : Session).received id request job
      have hline : come.Line := hnil.first
      simp only [h.askForPort_first ht, ht]
      rcases hline.tasks_enter rfl with ⟨next, htasks⟩ | htasks <;> rw [htasks]
      · exact .comes [] job next
      · exact .same []
    · simp only [h.askForPort_behind ht]
      exact .comes ..

theorem Line.tasks_leave (h : s.Line) (ht : s.tasks = ⟨id, job, stage⟩ :: rest)
    (outcome : Outcome) : (s.leave id outcome).tasks = moveUp rest := by
  rw [h.leave_eq ht]
  rfl

theorem Line.tasks_listed (h : s.Line) (ht : s.tasks = ⟨id, job, stage⟩ :: rest)
    (answer : Except DeviceError (List String)) : (s.listed id answer).tasks = moveUp rest := by
  cases answer <;> exact Line.tasks_leave (s := { s.note _ with phase := .idle }) h ht _

theorem Line.tasks_opened (h : s.Line) (ht : s.tasks = ⟨id, job, stage⟩ :: rest) (port : String)
    (answer : Except DeviceError Unit) : (s.opened id port answer).tasks = moveUp rest := by
  cases answer with
  | ok => exact Line.tasks_leave (s := s.portOpened id port) h ht _
  | error => exact Line.tasks_leave (s := s.note _) h ht _

theorem Line.tasks_uploadEnded (h : s.Line) (ht : s.tasks = ⟨id, job, stage⟩ :: rest)
    (port : String) (answer : Except DeviceError Unit) :
    (s.uploadEnded id port answer).tasks = moveUp rest := by
  cases answer with
  | ok =>
    exact Line.tasks_leave (s := { (s.note _).tell _ with phase := .idle }) h ht
      (.uploaded .uploaded)
  | error e =>
    exact Line.tasks_leave (s := { (s.note _).tell _ with phase := .idle }) h ht (.failed e)

theorem Line.tasks_closed (h : s.Line) (ht : s.tasks = ⟨id, job, stage⟩ :: rest)
    (monitor : Monitor) (answer : Except DeviceError Unit) :
    (s.closed id job monitor answer).tasks = ⟨id, job, .uploading⟩ :: rest ∨
      (s.closed id job monitor answer).tasks = moveUp rest := by
  cases answer with
  | ok =>
    cases job with
    | upload source board port =>
      left
      rw [Session.closed, Line.beginUpload_eq (s := s.portClosed id monitor) h ht]
    | list | monitor | stop =>
      exact .inr (Line.tasks_leave (s := { s.portClosed id monitor with phase := .idle }) h ht _)
  | error e =>
    cases job with
    | upload source board port =>
      exact .inr
        (Line.tasks_leave (s := { (s.note _).tell _ with phase := .idle }) h ht (.failed e))
    | list | monitor | stop =>
      exact .inr (Line.tasks_leave (s := { s.note _ with phase := .idle }) h ht _)

/-- What a step of a task makes of the line is one of four things. -/
theorem Line.reshapes (h : s.Line) (hstep : s.step? a = some u) (ha : a.task? = some id) :
    Reshapes id s.tasks u.tasks := by
  rcases own_step hstep ha with ⟨request, rfl⟩ | ⟨job, stage, ht, hgoes⟩
  · obtain ⟨hnew, rfl⟩ := ask_of_step? hstep
    exact h.reshapes_ask (by simpa [task?] using hnew) request
  · obtain ⟨rest, hrest⟩ := h.first_of_onward ht hgoes
    rw [hrest]
    cases hgoes with
    | enter =>
      rcases h.tasks_enter hrest with ⟨next, htasks⟩ | htasks <;> rw [htasks]
      · exact .goesOn ..
      · exact .leaves ..
    | close =>
      rw [h.call_eq hrest]
      exact .goesOn ..
    | listed answer =>
      rw [h.tasks_listed hrest]
      exact .leaves ..
    | opened answer =>
      rw [h.tasks_opened hrest]
      exact .leaves ..
    | closed answer =>
      rcases h.tasks_closed hrest _ answer with htasks | htasks <;> rw [htasks]
      · exact .goesOn ..
      · exact .leaves ..
    | uploaded answer =>
      rw [h.tasks_uploadEnded hrest]
      exact .leaves ..

end Shapes

theorem tasks_read? {r : Reader} (hread : s.read? r = some u) : u.tasks = s.tasks := by
  unfold read? at hread
  split at hread
  next =>
    cases hread
    rfl
  next =>
    split at hread
    next =>
      cases hread
      rfl
    next =>
      split at hread
      next =>
        cases hread
        simp only [streamOver]
        split <;> rfl
      next => cases hread

theorem tasks_of_nobody (hstep : s.step? a = some u) (ha : a.task? = none) : u.tasks = s.tasks := by
  cases a with
  | line epoch text | hangUp epoch =>
    simp only [step?] at hstep
    split at hstep <;> cases hstep
    rfl
  | read epoch =>
    obtain ⟨r, -, hread⟩ := Option.bind_eq_some_iff.mp hstep
    exact tasks_read? hread
  | ask | proceed | listed | opened | closed | uploaded => cases ha

/-- The steps of all others leave a task where it is, or hand it the port. -/
theorem Line.stays (h : s.Line) (hstep : s.step? a = some u) (ha : a.task? ≠ some id) :
    s.Stays id u := by
  cases hactor : a.task? with
  | none => exact .inl (by simp only [task?, tasks_of_nobody hstep hactor])
  | some actor =>
    have hne : actor ≠ id := fun heq => ha (heq ▸ hactor)
    exact h.stays_of_reshapes hne (h.reshapes hstep hactor)

/-! ### What a task can do where it is -/

/-- A number under which nothing is carried out takes no step but to ask. -/
theorem ask_of_none (ht : s.task? id = none) (hstep : s.step? a = some u)
    (ha : a.task? = some id) : ∃ request, a = .ask id request := by
  refine (own_step hstep ha).resolve_right ?_
  rintro ⟨job, stage, hthere, -⟩
  cases ht.symm.trans hthere

/-- Whoever has something under way does not ask, but goes on from where it is. -/
theorem onward_of_step? {job : Job} {stage : Stage} (ht : s.task? id = some ⟨id, job, stage⟩)
    (hstep : s.step? a = some u) (ha : a.task? = some id) : s.Onward id job stage u := by
  rcases own_step hstep ha with ⟨request, rfl⟩ | ⟨job', stage', ht', hgoes⟩
  · cases ht.symm.trans (ask_of_step? hstep).1
  · cases ht.symm.trans ht'
    exact hgoes

/-! ### The next step of a task -/

def NotAsked (id : Nat) (actions : List Action) : Prop :=
  ∀ request, .ask id request ∉ actions

theorem NotAsked.tail (h : NotAsked id (a :: actions)) : NotAsked id actions :=
  fun request hmem => h request (List.mem_cons_of_mem _ hmem)

/-- The sessions between which a task takes its next step: `x` and `y`, by `a`, and
what comes `later`. -/
structure NextStep (s : Session) (id : Nat) (actions : List Action) (v x : Session) (a : Action)
    (y : Session) (later : List Action) : Prop where
  run : Run s x
  stays : s.Stays id x
  step : x.step? a = some y
  own : a.task? = some id
  rest : y.stepAll? later = some v
  notAsked : NotAsked id (a :: later)
  steps : s.ownSteps id actions = ⟨x, a, y⟩ :: y.ownSteps id later

theorem Stays.refl (s : Session) (id : Nat) : s.Stays id s :=
  .inl rfl

theorem Stays.trans (h : s.Stays id u) (h' : u.Stays id v) : s.Stays id v := by
  rcases h with heq | ⟨job, hqueued, hgranted⟩
  · unfold Stays
    rw [← heq]
    exact h'
  · rcases h' with heq | ⟨job', hqueued', -⟩
    · exact .inr ⟨job, hqueued, heq.trans hgranted⟩
    · cases hgranted.symm.trans hqueued'

/-- Whoever does not wait for the port stays where it is. -/
theorem Stays.task?_eq {t : Task} (h : s.Stays id u) (ht : s.task? id = some t)
    (hs : t.stage ≠ .queued) : u.task? id = some t := by
  rcases h with heq | ⟨job, hqueued, -⟩
  · exact heq.trans ht
  · cases ht.symm.trans hqueued
    exact absurd rfl hs

/-- Whoever waits for the port still waits, or has been handed it. -/
theorem Stays.of_queued {job : Job} (h : s.Stays id u)
    (ht : s.task? id = some ⟨id, job, .queued⟩) :
    u.task? id = some ⟨id, job, .queued⟩ ∨ u.task? id = some ⟨id, job, .granted⟩ := by
  rcases h with heq | ⟨job, hqueued, hgranted⟩
  · exact .inl (heq.trans ht)
  · cases ht.symm.trans hqueued
    exact .inr hgranted

/-- Until a task takes a step it stays where it is, or is handed the port. -/
theorem Line.next (h : s.Line) (hsteps : s.stepAll? actions = some v) (hnot : NotAsked id actions) :
    (s.ownSteps id actions = [] ∧ s.Stays id v) ∨
      ∃ x a y later, s.NextStep id actions v x a y later := by
  induction actions generalizing s with
  | nil =>
    cases hsteps
    exact .inl ⟨rfl, .refl _ _⟩
  | cons a rest ih =>
    obtain ⟨u, hstep, hrest⟩ := exists_of_stepAll?_cons hsteps
    by_cases ha : a.task? = some id
    · exact .inr ⟨s, a, u, rest, .refl s, .refl s id, hstep, ha, hrest, hnot,
        ownSteps_cons hstep ha⟩
    · have hu : u.Line := h.of_run (.step (.refl s) hstep)
      have hstays := h.stays hstep ha
      rw [ownSteps_cons_of_ne hstep ha]
      rcases ih hu hrest hnot.tail with ⟨hnone, hthere⟩ | ⟨x, b, y, later, hnext⟩
      · exact .inl ⟨hnone, hstays.trans hthere⟩
      · refine .inr ⟨x, b, y, later, hnext.run.head hstep, hstays.trans hnext.stays, hnext.step,
          hnext.own, hnext.rest, hnext.notAsked, ?_⟩
        rw [ownSteps_cons_of_ne hstep ha]
        exact hnext.steps

/-- A task that does not wait for the port stays, or takes its next step as the
first in line. -/
theorem Line.next_of_served (h : s.Line) {job : Job} {stage : Stage}
    (ht : s.task? id = some ⟨id, job, stage⟩) (hs : stage ≠ .queued)
    (hsteps : s.stepAll? actions = some v) (hnot : NotAsked id actions) :
    (s.ownSteps id actions = [] ∧ v.task? id ≠ none) ∨
      ∃ x a y later rest, s.NextStep id actions v x a y later ∧
        x.tasks = ⟨id, job, stage⟩ :: rest ∧ x.task? id = some ⟨id, job, stage⟩ := by
  rcases h.next hsteps hnot with ⟨hnone, hstays⟩ | ⟨x, a, y, later, hnext⟩
  · exact .inl ⟨hnone, by simp [hstays.task?_eq ht hs]⟩
  · have hx := hnext.stays.task?_eq ht hs
    obtain ⟨-, rest, hrest⟩ := (h.of_run hnext.run).first_of_task? hx hs
    exact .inr ⟨x, a, y, later, rest, hnext, hrest, hx⟩

/-- A task that waits for the port waits on, or its next step is that it gets the
port. -/
theorem Line.next_of_queued (h : s.Line) {job : Job} (ht : s.task? id = some ⟨id, job, .queued⟩)
    (hsteps : s.stepAll? actions = some v) (hnot : NotAsked id actions) :
    (s.ownSteps id actions = [] ∧ v.task? id ≠ none) ∨
      ∃ x a y later rest, s.NextStep id actions v x a y later ∧
        x.tasks = ⟨id, job, .granted⟩ :: rest ∧ y = x.enter id job := by
  rcases h.next hsteps hnot with ⟨hnone, hstays⟩ | ⟨x, a, y, later, hnext⟩
  · refine .inl ⟨hnone, ?_⟩
    rcases hstays.of_queued ht with hv | hv <;> simp [hv]
  · rcases hnext.stays.of_queued ht with hx | hx
    · nomatch onward_of_step? hx hnext.step hnext.own
    · obtain ⟨-, rest, hrest⟩ := (h.of_run hnext.run).first_of_task? hx (by simp)
      cases onward_of_step? hx hnext.step hnext.own
      exact .inr ⟨x, a, _, later, rest, hnext, hrest, rfl⟩

/-! ### The first step -/

def withFirst (s : Session) (id : Nat) (request : Request) (job : Job) : Session :=
  ({ s with holder := some id, tasks := [⟨id, job, .granted⟩] } : Session).received id request job

def withLast (s : Session) (id : Nat) (request : Request) (job : Job) : Session :=
  ({ s with
    waiting := s.waiting ++ [id]
    tasks := s.tasks ++ [⟨id, job, .queued⟩] } : Session).received id request job

section First

variable {request : Request} {job : Job} {outcome : Outcome}

theorem ne_of_task? (h : s.task? id = none) : ∀ t ∈ s.tasks, t.id ≠ id := by
  simpa [task?] using h

/-- A request that is refused changes nothing, and is over. -/
theorem refused (hstep : s.step? (.ask id request) = some u)
    (hr : s.receive request = .error outcome) :
    u = { s with history := .finished id outcome :: .asked id request :: s.history } ∧
      u.task? id = none := by
  obtain ⟨hnew, hu⟩ := ask_of_step? hstep
  have heq : u = { s with history := .finished id outcome :: .asked id request :: s.history } := by
    rw [hu, ask_eq, hr]
    simp only [finish, note, filter_of_ne (ne_of_task? hnew)]
  exact ⟨heq, by rw [heq]; exact hnew⟩

/-- A request that is taken up finds nobody in line and goes on, or waits. -/
theorem Line.asked (h : s.Line) (hstep : s.step? (.ask id request) = some u)
    (hr : s.receive request = .ok job) :
    (s.tasks = [] ∧ u = (s.withFirst id request job).enter id job) ∨
      (u = s.withLast id request job ∧ u.task? id = some ⟨id, job, .queued⟩) := by
  obtain ⟨hnew, hu⟩ := ask_of_step? hstep
  have hask : u = (s.received id request job).askForPort id job := by rw [hu, ask_eq, hr]
  by_cases ht : s.tasks = []
  · exact .inl ⟨ht, hask.trans (h.askForPort_first ht id request job)⟩
  · have hlast : u = s.withLast id request job := hask.trans (h.askForPort_behind ht id request job)
    refine .inr ⟨hlast, ?_⟩
    have hnone : s.tasks.find? (fun t => t.id = id) = none := hnew
    rw [hlast, task?, withLast, received, List.find?_append, hnone]
    simp

end First

/-! ### After the last step -/

section Last

variable {job : Job} {stage : Stage} {rest : List Task}

theorem task?_of_first (ht : s.tasks = ⟨id, job, stage⟩ :: rest) :
    s.task? id = some ⟨id, job, stage⟩ := by
  simp [task?, ht]

/-- Whoever has left the line is gone. -/
theorem Line.gone (h : s.Line) (ht : s.tasks = ⟨id, job, stage⟩ :: rest)
    (hu : u.tasks = moveUp rest) : u.task? id = none := by
  have hne := (h.front ht).ne_of_mem
  rw [task?, hu]
  cases rest with
  | nil => rfl
  | cons next others =>
    refine List.find?_eq_none.mpr fun t hmem => ?_
    rcases List.mem_cons.mp hmem with rfl | hothers
    · simpa using hne next List.mem_cons_self
    · simpa using hne t (List.mem_cons_of_mem _ hothers)

/-- Whoever is gone takes no more steps, and does not come back. -/
theorem Line.nothing_after (h : s.Line) (ht : s.task? id = none)
    (hsteps : s.stepAll? actions = some v) (hnot : NotAsked id actions) :
    s.ownSteps id actions = [] ∧ v.task? id = none := by
  have hstill : ∀ {x : Session}, s.Stays id x → x.task? id = none := by
    rintro x (heq | ⟨job, hqueued, -⟩)
    · exact heq.trans ht
    · cases ht.symm.trans hqueued
  rcases h.next hsteps hnot with ⟨hnone, hstays⟩ | ⟨x, a, y, later, hnext⟩
  · exact ⟨hnone, hstill hstays⟩
  · obtain ⟨request, rfl⟩ := ask_of_none (hstill hnext.stays) hnext.step hnext.own
    exact absurd (List.mem_cons_self ..) (hnext.notAsked request)

end Last

end BlockSketch.Session
