import BlockSketch.Device.Session

/-!
The line of tasks. All tasks of a session stand in one line: the first of them
has the port, and the others wait for it in the order in which they came. A
task that is answered or goes on by itself is therefore always the first, and
when it leaves, the next one has the port.
-/

namespace BlockSketch.Session

/-- Some tasks stand in line, with the holder of the port first. -/
structure InLine (tasks : List Task) (holder : Option Nat) (waiting : List Nat) : Prop where
  holder : holder = tasks.head?.map Task.id
  waiting : waiting = tasks.tail.map Task.id
  distinct : (tasks.map Task.id).Nodup
  queued : ∀ t ∈ tasks.tail, t.stage = .queued
  served : ∀ t ∈ tasks.head?, t.stage ≠ .queued

def Line (s : Session) : Prop :=
  InLine s.tasks s.holder s.waiting

/-- The line when its first task has left. -/
def moveUp : List Task → List Task
  | [] => []
  | t :: rest => { t with stage := .granted } :: rest

def departed (s : Session) (rest : List Task) (id : Nat) (outcome : Outcome) : Session :=
  { s with
    holder := rest.head?.map Task.id
    waiting := rest.tail.map Task.id
    tasks := moveUp rest
    history := .finished id outcome :: s.history }

variable {s : Session} {t : Task} {rest tasks : List Task} {holder : Option Nat}
  {waiting : List Nat}

theorem map_id_moveUp (rest : List Task) : (moveUp rest).map Task.id = rest.map Task.id := by
  cases rest <;> rfl

/-- A change to a task that is not there changes nothing. -/
theorem map_stage_of_ne {id : Nat} (h : ∀ t ∈ tasks, t.id ≠ id) (stage : Stage) :
    tasks.map (fun t => if t.id = id then { t with stage := stage } else t) = tasks := by
  have hid : ∀ t ∈ tasks, (if t.id = id then { t with stage := stage } else t) = t := by
    intro t ht
    rw [if_neg (h t ht)]
  rw [List.map_congr_left hid, List.map_id']

theorem filter_of_ne {id : Nat} (h : ∀ t ∈ tasks, t.id ≠ id) :
    tasks.filter (fun t => t.id ≠ id) = tasks := by
  rw [List.filter_eq_self]
  intro t ht
  simpa using h t ht

namespace InLine

theorem nil : InLine [] none [] :=
  ⟨rfl, rfl, List.nodup_nil, by simp, by simp⟩

theorem ne_of_mem (h : InLine (t :: rest) holder waiting) : ∀ q ∈ rest, q.id ≠ t.id := by
  have hd := h.distinct
  rw [List.map_cons, List.nodup_cons] at hd
  intro q hq he
  exact hd.1 (he ▸ List.mem_map_of_mem hq)

theorem restage (h : InLine (t :: rest) holder waiting) {stage : Stage} (hs : stage ≠ .queued) :
    InLine ({ t with stage := stage } :: rest) holder waiting where
  holder := h.holder
  waiting := h.waiting
  distinct := h.distinct
  queued := h.queued
  served := by simpa using hs

theorem moveUp (h : InLine (t :: rest) holder waiting) :
    InLine (Session.moveUp rest) (rest.head?.map Task.id) (rest.tail.map Task.id) where
  holder := by cases rest <;> rfl
  waiting := by cases rest <;> rfl
  distinct := by
    rw [map_id_moveUp]
    exact (List.nodup_cons.mp h.distinct).2
  queued := by
    intro q hq
    refine h.queued q ?_
    cases rest with
    | nil => cases hq
    | cons next others => exact List.mem_cons_of_mem _ hq
  served := by cases rest <;> simp [Session.moveUp]

theorem first {id : Nat} {job : Job} {holder : Option Nat} (h : InLine [] holder waiting) :
    InLine [⟨id, job, .granted⟩] (some id) waiting where
  holder := rfl
  waiting := h.waiting
  distinct := by simp
  queued := by simp
  served := by simp

theorem append {id : Nat} {job : Job} (h : InLine tasks holder waiting) (hne : tasks ≠ [])
    (hid : ∀ t ∈ tasks, t.id ≠ id) :
    InLine (tasks ++ [⟨id, job, .queued⟩]) holder (waiting ++ [id]) := by
  cases tasks with
  | nil => exact absurd rfl hne
  | cons t rest =>
    refine ⟨h.holder, ?_, ?_, ?_, h.served⟩
    · rw [h.waiting]
      simp
    · rw [List.map_append, List.nodup_append]
      refine ⟨h.distinct, by simp, ?_⟩
      intro a ha b hb
      obtain ⟨q, hq, rfl⟩ := List.mem_map.mp ha
      rw [List.map_singleton, List.mem_singleton] at hb
      exact hb ▸ hid q hq
    · intro q hq
      rcases List.mem_append.mp hq with hq | hq
      · exact h.queued q hq
      · rw [List.mem_singleton.mp hq]

end InLine

theorem id_of_task? {id : Nat} (ht : s.task? id = some t) : t.id = id := by
  simpa using List.find?_some ht

namespace Line

theorem front (h : s.Line) (ht : s.tasks = t :: rest) : InLine (t :: rest) s.holder s.waiting :=
  ht ▸ h

/-- Only the first task is in a stage other than waiting. -/
theorem first_of_task? (h : s.Line) {id : Nat} (ht : s.task? id = some t)
    (hs : t.stage ≠ .queued) : t.id = id ∧ ∃ rest, s.tasks = t :: rest := by
  have hmem : t ∈ s.tasks := List.mem_of_find?_eq_some ht
  refine ⟨id_of_task? ht, ?_⟩
  obtain ⟨first, rest, hcons⟩ := List.exists_cons_of_ne_nil (List.ne_nil_of_mem hmem)
  rw [hcons] at hmem
  rcases List.mem_cons.mp hmem with rfl | hrest
  · exact ⟨rest, hcons⟩
  · have hq := h.queued t
    rw [hcons] at hq
    exact absurd (hq hrest) hs

/-! ### The first task -/

variable {id : Nat} {job : Job} {stage : Stage}

theorem setStage_eq (h : s.Line) (ht : s.tasks = ⟨id, job, stage⟩ :: rest) (next : Stage) :
    s.setStage id next = { s with tasks := ⟨id, job, next⟩ :: rest } := by
  have hrest := map_stage_of_ne (h.front ht).ne_of_mem next
  simp only [setStage, ht, List.map_cons, if_true, hrest]

theorem call_eq (h : s.Line) (ht : s.tasks = ⟨id, job, stage⟩ :: rest) (c : Call)
    (next : Stage) :
    s.call id c next =
      { s with tasks := ⟨id, job, next⟩ :: rest, history := .called id c :: s.history } :=
  setStage_eq (s := s.note (.called id c)) h ht next

theorem beginTeardown_eq (h : s.Line) (ht : s.tasks = ⟨id, job, stage⟩ :: rest)
    (monitor : Monitor) :
    s.beginTeardown id monitor =
      { s with
        monitor := none
        readers := s.readers.map fun r =>
          if r.epoch = monitor.epoch then { r with cancelled := true } else r
        tasks := ⟨id, job, .joining monitor⟩ :: rest } :=
  setStage_eq (s := ({ s with monitor := none } : Session).cancel monitor.epoch) h ht _

theorem beginUpload_eq (h : s.Line) (ht : s.tasks = ⟨id, job, stage⟩ :: rest) (source : String)
    (board : Board) (port : String) :
    s.beginUpload id source board port =
      { s with
        tasks := ⟨id, job, .uploading⟩ :: rest
        history := .called id (.upload source board port) :: .told (.uploadStarted port) ::
          s.history } :=
  call_eq (s := s.tell (.uploadStarted port)) h ht (.upload source board port) .uploading

theorem leave_eq (h : s.Line) (ht : s.tasks = ⟨id, job, stage⟩ :: rest) (outcome : Outcome) :
    s.leave id outcome = s.departed rest id outcome := by
  have hline := h.front ht
  have hwaiting : s.waiting = rest.map Task.id := hline.waiting
  have hne : ∀ q ∈ rest, q.id ≠ id := hline.ne_of_mem
  cases rest with
  | nil =>
    rw [List.map_nil] at hwaiting
    simp [leave, release, finish, departed, note, moveUp, hwaiting, ht]
  | cons next others =>
    have hnext : next.id ≠ id := hne next List.mem_cons_self
    have hothers : ∀ q ∈ others, q.id ≠ id := fun q hq => hne q (List.mem_cons_of_mem _ hq)
    have hstage := map_stage_of_ne hline.moveUp.ne_of_mem .granted
    rw [List.map_cons] at hwaiting
    simp only [leave, release, hwaiting, setStage, ht, List.map_cons, if_neg hnext.symm, if_true,
      hstage, finish, note, departed, moveUp, List.head?_cons, Option.map_some, List.tail_cons]
    rw [List.filter_cons_of_neg (by simp), List.filter_cons_of_pos (by simpa using hnext),
      filter_of_ne hothers]

theorem leaveIdle_eq (h : s.Line) (ht : s.tasks = ⟨id, job, stage⟩ :: rest) (outcome : Outcome) :
    s.leaveIdle id outcome = ({ s with phase := .idle } : Session).departed rest id outcome :=
  leave_eq (s := { s with phase := .idle }) h ht outcome

theorem leaveUpload_eq (h : s.Line) (ht : s.tasks = ⟨id, job, stage⟩ :: rest)
    (outcome : Outcome) :
    s.leaveUpload id outcome =
      ({ s with phase := .idle, uploading := false } : Session).departed rest id outcome := by
  rw [leaveUpload, h.leaveIdle_eq ht]
  rfl

end Line

end BlockSketch.Session
