import BlockSketch.Proofs.Device.Exclusive

/-!
What a session says about itself. It says which of four things it is doing,
whether an upload is under way, and whether it has a monitor. All three are
written by several tasks and by the readers of monitors, and still they always
say what is going on: the bridge is asked one thing at a time, the phase is that
of the task that has the port, and when all tasks have ended nothing of them is
left behind. Nor does a task wait for something that cannot come: as long as
there is one and the bridge owes no answer, something goes on by itself.
-/

namespace BlockSketch

def Happening.isCall : Happening → Bool
  | .called .. => true
  | _ => false

namespace Ledger

variable {history before : List Happening}

/-- Whenever the bridge was asked something, it owed no answer. -/
def OneByOne : List Happening → Prop
  | [] => True
  | h :: before => (h.isCall → (of before).awaited = []) ∧ OneByOne before

theorem OneByOne.of_suffix (h : OneByOne history) (hsuffix : before <:+ history) :
    OneByOne before := by
  induction history with
  | nil =>
    rw [List.suffix_nil.mp hsuffix]
    trivial
  | cons x history ih =>
    rcases List.suffix_cons_iff.mp hsuffix with rfl | hsuffix
    · exact h
    · exact ih h.2 hsuffix

/-- The bridge never owes two answers. -/
theorem OneByOne.length_awaited (h : OneByOne history) : (of history).awaited.length ≤ 1 := by
  induction history with
  | nil => exact Nat.zero_le 1
  | cons x history ih =>
    have hle := ih h.2
    rw [of]
    cases x with
    | called task c =>
      have hfree := h.1 rfl
      simp [after, hfree]
    | answered task error =>
      simp only [after]
      split
      · exact Nat.le_trans (List.length_filter_le _ _) hle
      · exact hle
    | asked | told | finished | lineArrived | streamEnded | linePassed => exact hle

end Ledger

/-- Tasks wait only for what belongs to what they are to do. -/
def Task.Suits (t : Task) : Prop :=
  match t.stage with
  | .queued | .granted => True
  | .listing => t.job = .list
  | .opening => ∃ port, t.job = .monitor port
  | .joining _ | .closing _ => t.job.stopsMonitor
  | .uploading => ∃ source board port, t.job = .upload source board port

def Task.isUpload (t : Task) : Bool :=
  t.job.isUpload

namespace Task

variable {t : Task}

theorem suits_of_granted (hs : t.stage = .granted) : t.Suits := by
  rw [Suits, hs]
  trivial

theorem phase_eq_uploading (hsuits : t.Suits) (hqueued : t.stage ≠ .queued)
    (hgranted : t.stage ≠ .granted) : t.phase = .uploading ↔ t.isUpload := by
  obtain ⟨id, job, stage⟩ := t
  cases stage with
  | queued => exact absurd rfl hqueued
  | granted => exact absurd rfl hgranted
  | listing =>
    obtain rfl : job = .list := hsuits
    simp [phase, isUpload, Job.isUpload]
  | opening =>
    obtain ⟨port, rfl⟩ : ∃ port, job = .monitor port := hsuits
    simp [phase, isUpload, Job.isUpload]
  | joining monitor | closing monitor =>
    cases hjob : job.isUpload <;> simp [phase, isUpload, hjob]
  | uploading =>
    obtain ⟨source, board, port, rfl⟩ : ∃ source board port, job = .upload source board port :=
      hsuits
    simp [phase, isUpload, Job.isUpload]

end Task

namespace Session

variable {s u : Session} {t : Task} {rest : List Task}

/-! ### The flag, the first task and its reader -/

/-- Where the reader of one stream is changed, every reader is the changed one or
was there before. -/
theorem exists_of_mem_changed {readers : List Reader} {epoch : Nat} {f : Reader → Reader}
    {r : Reader} (hr : r ∈ readers.map fun r => if r.epoch = epoch then f r else r) :
    ∃ q ∈ readers, (q.epoch = epoch ∧ r = f q) ∨ (q.epoch ≠ epoch ∧ r = q) := by
  obtain ⟨q, hq, rfl⟩ := List.mem_map.mp hr
  refine ⟨q, hq, ?_⟩
  by_cases hepoch : q.epoch = epoch
  · exact .inl ⟨hepoch, if_pos hepoch⟩
  · exact .inr ⟨hepoch, if_neg hepoch⟩

/-- The flag of a session is set for one upload, the first task waits for what
belongs to its job, and a reader that it waits for has been told to stop. -/
structure Flagged (s : Session) : Prop where
  flag : s.tasks.countP Task.isUpload = s.uploading.toNat
  suits : ∀ t ∈ s.tasks.head?, t.Suits
  told : ∀ t ∈ s.tasks.head?, ∀ monitor, t.stage = .joining monitor →
    ∀ r ∈ s.readers, r.epoch = monitor.epoch → r.cancelled

theorem countP_moveUp (rest : List Task) :
    (moveUp rest).countP Task.isUpload = rest.countP Task.isUpload := by
  cases rest <;> rfl

theorem stage_of_moveUp (ht : t ∈ (moveUp rest).head?) : t.stage = .granted := by
  cases rest with
  | nil => cases ht
  | cons next others =>
    cases ht
    rfl

/-- An upload is taken up only if the flag is not set. -/
theorem isUpload_of_receive {request : Request} {job : Job} (h : s.receive request = .ok job)
    (hjob : job.isUpload = true) : s.uploading = false := by
  cases request with
  | list | monitor =>
    simp only [receive] at h
    split at h <;> cases h
    cases hjob
  | stop =>
    cases h
    cases hjob
  | upload source boardId port =>
    simp only [receive] at h
    split at h
    · cases h
    · split at h
      · cases h
      next hup => exact Bool.eq_false_iff.mpr hup

namespace Flagged

theorem start : start.Flagged :=
  ⟨rfl, by simp [Session.start], by simp [Session.start]⟩

theorem suits_first (h : s.Flagged) (ht : s.tasks = t :: rest) : t.Suits :=
  h.suits t (by rw [ht]; rfl)

/-- The flag when a task has come. -/
theorem flag_received (h : s.Flagged) {request : Request} {id : Nat} {job : Job} {stage : Stage}
    (hr : s.receive request = .ok job) :
    (s.tasks ++ [(⟨id, job, stage⟩ : Task)]).countP Task.isUpload =
      (s.uploading || job.isUpload).toNat := by
  rw [List.countP_append, h.flag, List.countP_singleton, Task.isUpload]
  cases hjob : job.isUpload with
  | false => simp
  | true => simp [isUpload_of_receive hr hjob]

/-- The first task goes on to another stage. -/
theorem restage (h : s.Flagged) {id : Nat} {job : Job} {stage stage' : Stage}
    (ht : s.tasks = ⟨id, job, stage⟩ :: rest) (htasks : u.tasks = ⟨id, job, stage'⟩ :: rest)
    (huploading : u.uploading = s.uploading) (hsuits : Task.Suits ⟨id, job, stage'⟩)
    (htold : ∀ monitor, stage' = .joining monitor →
      ∀ r ∈ u.readers, r.epoch = monitor.epoch → r.cancelled) : u.Flagged where
  flag := by
    rw [htasks, huploading, ← h.flag, ht]
    rfl
  suits t hmem := by
    rw [htasks] at hmem
    cases hmem
    exact hsuits
  told t hmem := by
    rw [htasks] at hmem
    cases hmem
    exact htold

/-- The first task leaves, and takes the flag with it if it has set it. -/
theorem departed (h : s.Flagged) {id : Nat} {job : Job} {stage : Stage} {outcome : Outcome}
    (ht : s.tasks = ⟨id, job, stage⟩ :: rest)
    (huploading : u.uploading = (s.uploading && !job.isUpload)) :
    (u.departed rest id outcome).Flagged where
  flag := by
    have hflag := h.flag
    rw [ht, List.countP_cons, Task.isUpload] at hflag
    show (moveUp rest).countP Task.isUpload = u.uploading.toNat
    rw [countP_moveUp, huploading]
    cases hjob : job.isUpload <;> cases hup : s.uploading <;> simp_all
  suits t hmem := Task.suits_of_granted (stage_of_moveUp hmem)
  told t hmem monitor hjoining := by
    rw [stage_of_moveUp hmem] at hjoining
    cases hjoining

/-- A change to the readers by which none that was told to stop goes on. -/
theorem readers (h : s.Flagged) (htasks : u.tasks = s.tasks)
    (huploading : u.uploading = s.uploading)
    (hreaders : ∀ r ∈ u.readers, ∃ q ∈ s.readers, q.epoch = r.epoch ∧ (q.cancelled → r.cancelled)) :
    u.Flagged where
  flag := by rw [htasks, huploading, h.flag]
  suits := htasks ▸ h.suits
  told t hmem monitor hjoining r hr hepoch := by
    obtain ⟨q, hq, hsame, hkept⟩ := hreaders r hr
    rw [htasks] at hmem
    exact hkept (h.told t hmem monitor hjoining q hq (hsame.trans hepoch))

theorem move (h : s.Flagged) (m : Move s u) : u.Flagged := by
  cases m with
  | refuse => exact ⟨h.flag, h.suits, h.told⟩
  | wait _ hr hne =>
    have hhead := head?_behind hne
    exact ⟨h.flag_received hr, fun t ht => h.suits t (hhead _ ▸ ht),
      fun t ht => h.told t (hhead _ ▸ ht)⟩
  | @come _ job id hr hnil =>
    have hflag : (s.tasks ++ [(⟨id, job, .granted⟩ : Task)]).countP Task.isUpload =
        (s.uploading || job.isUpload).toNat := h.flag_received hr
    rw [hnil] at hflag
    refine ⟨hflag, ?_, ?_⟩
    · rintro t ht
      cases ht
      trivial
    · rintro t ht monitor hjoining
      cases ht
      cases hjoining
  | listBusy ht | monitorBusy ht | nothingToStop ht | openFailed _ ht | opened ht =>
    exact h.departed ht (by simp [Job.isUpload, portOpened])
  | list ht => exact h.restage ht rfl rfl rfl (by rintro _ ⟨⟩)
  | openPort ht => exact h.restage ht rfl rfl ⟨_, rfl⟩ (by rintro _ ⟨⟩)
  | upload ht => exact h.restage ht rfl rfl ⟨_, _, _, rfl⟩ (by rintro _ ⟨⟩)
  | @teardown _ _ monitor _ ht hstops =>
    refine h.restage ht rfl rfl hstops ?_
    rintro _ ⟨⟩ r hr hepoch
    obtain ⟨q, -, ⟨-, rfl⟩ | ⟨hother, rfl⟩⟩ := exists_of_mem_changed hr
    · rfl
    · exact absurd hepoch hother
  | @close _ job _ _ ht =>
    have hstops : job.stopsMonitor := h.suits_first ht
    exact h.restage ht rfl rfl hstops (by rintro _ ⟨⟩)
  | tornDown ht => exact h.restage ht rfl rfl ⟨_, _, _, rfl⟩ (by rintro _ ⟨⟩)
  | @listed _ job _ _ ht | @listFailed _ job _ _ ht =>
    have hjob : job = .list := h.suits_first ht
    exact h.departed ht (by simp [hjob, Job.isUpload])
  | stopped ht hjob | stopFailed _ ht hjob => exact h.departed ht (by simp [hjob])
  | teardownFailed _ ht | uploaded ht | uploadFailed _ ht =>
    exact h.departed ht (by simp [Job.isUpload])
  | lineArrived | hangUp | pass =>
    refine h.readers rfl rfl fun r hr => ?_
    obtain ⟨q, hq, ⟨-, rfl⟩ | ⟨-, rfl⟩⟩ := exists_of_mem_changed hr
    · exact ⟨q, hq, rfl, id⟩
    · exact ⟨_, hq, rfl, id⟩
  | drop | readerOver | monitorOver =>
    exact h.readers rfl rfl fun r hr => ⟨r, List.mem_of_mem_filter hr, rfl, id⟩

end Flagged

/-! ### One call at a time -/

theorem Accounted.awaited_eq {stranded own : List Nat} (h : s.Accounted stranded own) :
    (Ledger.of s.history).awaited = s.awaited := by
  rw [h.ledger]

theorem Kept.awaited_eq (h : s.Kept) : (Ledger.of s.history).awaited = s.awaited := by
  obtain ⟨_, _, ha⟩ := h.accounted
  exact ha.awaited_eq

/-- A move asks the bridge something only when no answer is owed. -/
theorem oneByOne_move (hk : s.Kept) (h : Ledger.OneByOne s.history) (m : Move s u) :
    Ledger.OneByOne u.history := by
  have hfree : ∀ {t rest}, s.tasks = t :: rest → t.call? = none →
      (Ledger.of s.history).awaited = [] := by
    intro t rest ht hcall
    rw [hk.awaited_eq, awaited_of_tasks ht, hcall]
    rfl
  cases m with
  | list ht | openPort ht | close ht => exact ⟨fun _ => hfree ht rfl, h⟩
  | upload ht => exact ⟨fun _ => hfree ht rfl, nofun, h⟩
  | tornDown ht =>
    obtain ⟨_, _, ha⟩ := hk.accounted
    have hledger := ha.ledger_closed (awaited_of_tasks ht)
    exact ⟨fun _ => congrArg Ledger.awaited hledger, nofun, nofun, nofun, h⟩
  | teardown | drop | readerOver => exact h
  | refuse | wait | come | listBusy | monitorBusy | nothingToStop | listed | listFailed | opened
  | openFailed | stopped | stopFailed | teardownFailed | uploaded | uploadFailed | lineArrived
  | hangUp | pass | monitorOver =>
    simpa [Ledger.OneByOne, Happening.isCall, received, departed, portOpened, lineArrives,
      streamEnds, modifyReader, dropReader] using h

/-! ### What a session says -/

/-- A task has the port, and has gone on with it. -/
def AtBoard (s : Session) (t : Task) : Prop :=
  t ∈ s.tasks ∧ s.holder = some t.id ∧ t.stage ≠ .granted

/-- What a session says agrees with what is going on in it. The bridge never has
two questions at a time; the session is listing while the bridge looks for ports,
and uploading while one upload has the port. When all tasks have ended, nothing of
them is left. Where no answer of the bridge is owed, the task with the port can go
on, or can when a reader has taken one step. -/
structure Consistent (s : Session) : Prop where
  oneCall : ∀ before, before <:+ s.history → (Ledger.of before).awaited.length ≤ 1
  listing : s.phase = .listing ↔ ∃ task, (task, .listPorts) ∈ (Ledger.of s.history).awaited
  uploading : s.phase = .uploading ↔ ∃! t, s.AtBoard t ∧ t.isUpload
  monitoring : s.monitor.isSome → s.phase = .monitoring
  resting : s.tasks = [] →
    s.uploading = false ∧ s.phase = if s.monitor.isSome then .monitoring else .idle
  goesOn : s.tasks ≠ [] → (Ledger.of s.history).awaited = [] → ∃ id, s.holder = some id ∧
    ((s.step? (.proceed id)).isSome ∨
      ∃ epoch u, s.step? (.read epoch) = some u ∧ (u.step? (.proceed id)).isSome)

/-! ### Why it is so -/

theorem Line.atBoard_iff (h : s.Line) :
    s.AtBoard t ↔ ∃ rest, s.tasks = t :: rest ∧ t.stage ≠ .granted := by
  constructor
  · rintro ⟨hmem, hholder, hstage⟩
    obtain ⟨first, rest, ht⟩ := List.exists_cons_of_ne_nil (List.ne_nil_of_mem hmem)
    rw [ht] at hmem
    refine ⟨rest, ?_, hstage⟩
    rcases List.mem_cons.mp hmem with rfl | hrest
    · exact ht
    · -- The holder is the first in line, and no other task has its number.
      have hfirst : some first.id = some t.id := by
        rw [← hholder, (h.front ht).holder]
        rfl
      exact absurd (Option.some.inj hfirst).symm ((h.front ht).ne_of_mem t hrest)
  · rintro ⟨rest, ht, hstage⟩
    exact ⟨by rw [ht]; exact List.mem_cons_self, (h.front ht).holder, hstage⟩

/-- A session that is listing or uploading is doing what its first task does. -/
theorem Orderly.exists_first (h : s.Orderly) (hphase : s.phase = .listing ∨ s.phase = .uploading) :
    ∃ t rest, s.tasks = t :: rest ∧ t.stage ≠ .granted ∧ s.phase = t.phase := by
  have hrests : ¬ s.Resting := by
    intro hresting
    rw [Resting] at hresting
    rw [hresting] at hphase
    split at hphase <;> simp at hphase
  cases ht : s.tasks with
  | nil => exact absurd (h.resting (by simp [ht])) hrests
  | cons t rest =>
    have hstage : t.stage ≠ .granted := fun hs => hrests (h.rests ht hs)
    exact ⟨t, rest, rfl, hstage, (h.acts ht hstage).2⟩

theorem Kept.mem_awaited (h : s.Kept) {id : Nat} {c : Call} :
    (id, c) ∈ (Ledger.of s.history).awaited ↔
      ∃ t rest, s.tasks = t :: rest ∧ t.id = id ∧ t.call? = some c := by
  rw [h.awaited_eq]
  cases ht : s.tasks with
  | nil => simp [awaited, ht]
  | cons t rest =>
    rw [awaited_of_tasks ht]
    simp [and_comm]

theorem Kept.listing_iff (h : s.Kept) :
    s.phase = .listing ↔ ∃ task, (task, .listPorts) ∈ (Ledger.of s.history).awaited := by
  constructor
  · intro hphase
    obtain ⟨t, rest, ht, _, hsame⟩ := h.orderly.exists_first (.inl hphase)
    refine ⟨t.id, h.mem_awaited.mpr ⟨t, rest, ht, rfl, ?_⟩⟩
    rw [hphase] at hsame
    obtain ⟨_, job, stage⟩ := t
    cases stage with
    | listing => rfl
    | joining | closing => cases hjob : job.isUpload <;> simp [Task.phase, hjob] at hsame
    | queued | granted | opening | uploading => cases hsame
  · rintro ⟨id, hmem⟩
    obtain ⟨t, rest, ht, _, hcall⟩ := h.mem_awaited.mp hmem
    have hstage : t.stage = .listing := by
      unfold Task.call? at hcall
      split at hcall <;> first | assumption | cases hcall
    rw [(h.orderly.acts ht (by simp [hstage])).2, Task.phase, hstage]

theorem Flagged.uploading_iff (h : s.Flagged) (hline : s.Line) (ho : s.Orderly) :
    s.phase = .uploading ↔ ∃! t, s.AtBoard t ∧ t.isUpload := by
  have hqueued : ∀ {t rest}, s.tasks = t :: rest → t.stage ≠ .queued :=
    fun ht => (hline.front ht).served _ rfl
  constructor
  · intro hphase
    obtain ⟨t, rest, ht, hstage, hsame⟩ := ho.exists_first (.inr hphase)
    rw [hphase] at hsame
    have hupload := (Task.phase_eq_uploading (h.suits_first ht) (hqueued ht) hstage).mp hsame.symm
    refine ⟨t, ⟨hline.atBoard_iff.mpr ⟨rest, ht, hstage⟩, hupload⟩, ?_⟩
    rintro q ⟨hq, _⟩
    obtain ⟨others, hq, _⟩ := hline.atBoard_iff.mp hq
    rw [ht] at hq
    exact (List.cons.inj hq).1.symm
  · rintro ⟨t, ⟨hboard, hupload⟩, _⟩
    obtain ⟨rest, ht, hstage⟩ := hline.atBoard_iff.mp hboard
    rw [(ho.acts ht hstage).2]
    exact (Task.phase_eq_uploading (h.suits_first ht) (hqueued ht) hstage).mpr hupload

theorem Orderly.monitoring (h : s.Orderly) (hm : s.monitor.isSome) : s.phase = .monitoring := by
  have hresting : s.Resting := by
    refine h.resting fun t ht => ?_
    by_contra hstage
    rw [(h.acting t ht hstage).1] at hm
    cases hm
  rw [Resting, if_pos hm] at hresting
  exact hresting

/-- The first task waits for the bridge, or for a reader that will end, or for
nothing. -/
theorem Flagged.goesOn (h : s.Flagged) (hline : s.Line) (hk : s.Kept) (hne : s.tasks ≠ [])
    (hfree : (Ledger.of s.history).awaited = []) : ∃ id, s.holder = some id ∧
      ((s.step? (.proceed id)).isSome ∨
        ∃ epoch u, s.step? (.read epoch) = some u ∧ (u.step? (.proceed id)).isSome) := by
  obtain ⟨t, rest, ht⟩ := List.exists_cons_of_ne_nil hne
  have hcall : t.call? = none := by
    rw [hk.awaited_eq, awaited_of_tasks ht, List.map_eq_nil_iff] at hfree
    simpa using hfree
  have hfirst : s.task? t.id = some t := by simp [task?, ht]
  have hsuits := h.suits_first ht
  have htold := h.told t (by rw [ht]; rfl)
  have hserved : t.stage ≠ .queued := (hline.front ht).served _ rfl
  refine ⟨t.id, (hline.front ht).holder, ?_⟩
  obtain ⟨id, job, stage⟩ := t
  cases stage with
  | queued => exact absurd rfl hserved
  | granted => exact .inl (by simp [step?, hfirst, proceed?])
  | joining monitor =>
    cases hreader : s.reader? monitor.epoch with
    | none => exact .inl (by simp [step?, hfirst, proceed?, hreader])
    | some r =>
      -- The reader has been told to stop, so it is gone when it has taken a step.
      have hepoch : r.epoch = monitor.epoch := by simpa using List.find?_some hreader
      have hcancelled := htold monitor rfl r (List.mem_of_find?_eq_some hreader) hepoch
      have hgone : (s.dropReader monitor.epoch).reader? monitor.epoch = none := by
        simp [reader?, dropReader]
      have hstill : (s.dropReader monitor.epoch).task? id = some ⟨id, job, .joining monitor⟩ :=
        hfirst
      refine .inr ⟨monitor.epoch, s.dropReader monitor.epoch, ?_, ?_⟩
      · simp [step?, hreader, read?, hcancelled, hepoch]
      · simp [step?, hstill, proceed?, hgone]
  | listing | closing => cases hcall
  | opening =>
    obtain ⟨port, rfl⟩ : ∃ port, job = .monitor port := hsuits
    cases hcall
  | uploading =>
    obtain ⟨source, board, port, rfl⟩ : ∃ source board port, job = .upload source board port :=
      hsuits
    cases hcall

/-- Whatever has happened, what a session says about itself agrees with what is
going on in it. -/
theorem reached_consistent (run : Run start s) : s.Consistent := by
  obtain ⟨hline, hk, hflagged, hone⟩ := run.with_kept
    (I := fun s => s.Flagged ∧ Ledger.OneByOne s.history) ⟨.start, trivial⟩
    fun _ _ _ hk h m => ⟨h.1.move m, oneByOne_move hk h.2 m⟩
  refine ⟨fun before hsuffix => (hone.of_suffix hsuffix).length_awaited, hk.listing_iff,
    hflagged.uploading_iff hline hk.orderly, hk.orderly.monitoring, fun hnil => ?_,
    hflagged.goesOn hline hk⟩
  have hflag := hflagged.flag
  rw [hnil, List.countP_nil] at hflag
  refine ⟨?_, hk.orderly.resting (by simp [hnil])⟩
  cases hup : s.uploading with
  | false => rfl
  | true =>
    rw [hup] at hflag
    cases hflag

/-- The bridge is looking for ports, and an upload waits: the flag is set, and the
session is listing. -/
theorem reached_consistent_of_waiting :
    ∃ s, Run start s ∧ s.phase = .listing ∧ s.uploading = true ∧ s.tasks.length = 2 ∧
      s.Consistent := by
  obtain ⟨s, run, hphase, hflag, hlength⟩ :=
    exists_run [.ask 0 .list, .ask 1 (.upload "sketch" "uno" "COM3")]
      (fun s => s.phase = .listing ∧ s.uploading = true ∧ s.tasks.length = 2) (by decide +kernel)
  exact ⟨s, run, hphase, hflag, hlength, reached_consistent run⟩

end Session

end BlockSketch
