import BlockSketch.Proofs.Device.Consistency

/-!
What a session tells everyone about its monitors. Who has only heard the events
of a session should know whether a monitor is running: each monitor that has
started ends once, before the next one starts and before anything is uploaded.
It ends because it is stopped, which is told, or because the board ends its
stream, which is told as well, or because the bridge was asked to close the port
and could not. Of the last nobody is told, and as the session is idle again, who
has heard the events only goes on to believe that the monitor is running.
-/

namespace BlockSketch

/-- What happens to the monitors of a session, and the uploads between them. -/
inductive Turn
  | started (port : String)
  | stopped (port : String)
  | closed (port : String)
  | notClosed
  | uploadStarted (port : String)
deriving DecidableEq, Repr

namespace Turn

/-- Something begins that needs the port for itself. -/
def Begins : Turn → Prop
  | started _ => True
  | uploadStarted _ => True
  | stopped _ | closed _ | notClosed => False

def Ends (port : String) (t : Turn) : Prop :=
  t = stopped port ∨ t = closed port ∨ t = notClosed

def isMonitor : Turn → Bool
  | uploadStarted _ => false
  | started _ | stopped _ | closed _ | notClosed => true

end Turn

/-- What something that happens is to the monitors, after what has happened before. -/
def Happening.turn? (before : List Happening) : Happening → Option Turn
  | .told (.monitorStarted port) => some (.started port)
  | .told (.monitorStopped port) => some (.stopped port)
  | .told (.monitorClosed port) => some (.closed port)
  | .told (.uploadStarted port) => some (.uploadStarted port)
  | .answered task (some _) =>
    if (Ledger.of before).awaited.lookup task = some .stopSerial then some .notClosed else none
  | _ => none

def turns : List Happening → List Turn
  | [] => []
  | h :: before => (h.turn? before).toList ++ turns before

/-! ### Taking turns -/

/-- Monitors and uploads come one after the other, and each monitor ends. The
port is that of the monitor that has not ended yet. -/
inductive TakeTurns : Option String → List Turn → Prop
  | start : TakeTurns none []
  | started {before : List Turn} (port : String) :
      TakeTurns none before → TakeTurns (some port) (.started port :: before)
  | ended {before : List Turn} {port : String} {t : Turn} :
      t.Ends port → TakeTurns (some port) before → TakeTurns none (t :: before)
  | uploadStarted {before : List Turn} (port : String) :
      TakeTurns none before → TakeTurns none (.uploadStarted port :: before)

namespace Turn

theorem Ends.not_begins {port : String} {t : Turn} (h : t.Ends port) : ¬ t.Begins := by
  rcases h with rfl | rfl | rfl <;> exact id

end Turn

namespace TakeTurns

variable {running : Option String} {port : String} {t : Turn} {before later between : List Turn}

/-- The monitor that has not ended yet is the last thing that has begun. -/
theorem running_eq (h : TakeTurns (some port) before) :
    ∃ earlier, before = .started port :: earlier := by
  cases h with
  | started => exact ⟨_, rfl⟩

theorem of_begins (h : TakeTurns running (t :: before)) (ht : t.Begins) :
    TakeTurns none before := by
  cases h with
  | started _ hbefore => exact hbefore
  | ended hends => exact absurd ht hends.not_begins
  | uploadStarted _ hbefore => exact hbefore

/-- What ends a monitor comes right after its start. -/
theorem of_not_begins (h : TakeTurns running (t :: before)) (ht : ¬ t.Begins) :
    running = none ∧ ∃ port earlier, before = .started port :: earlier ∧ t.Ends port := by
  cases h with
  | started => exact absurd trivial ht
  | ended hends hbefore =>
    obtain ⟨earlier, hearlier⟩ := hbefore.running_eq
    exact ⟨rfl, _, earlier, hearlier, hends⟩
  | uploadStarted => exact absurd trivial ht

theorem of_append (h : TakeTurns running (later ++ before)) :
    ∃ running, TakeTurns running before := by
  induction later generalizing running with
  | nil => exact ⟨running, h⟩
  | cons t later ih =>
    cases h with
    | started _ hrest | ended _ hrest | uploadStarted _ hrest => exact ih hrest

/-- Until something else begins, a monitor runs, or it has ended once. -/
theorem since_started (h : TakeTurns running (between ++ .started port :: before))
    (hbetween : ∀ t ∈ between, ¬ t.Begins) :
    (running = some port ∧ between = []) ∨
      (running = none ∧ ∃ t, between = [t] ∧ t.Ends port) := by
  cases between with
  | nil =>
    cases h with
    | started => exact .inl ⟨rfl, rfl⟩
    | ended hends => exact absurd trivial hends.not_begins
  | cons t others =>
    obtain ⟨hnone, p, earlier, heq, hends⟩ :=
      h.of_not_begins (hbetween t List.mem_cons_self)
    cases others with
    | nil =>
      cases heq
      exact .inr ⟨hnone, t, rfl, hends⟩
    | cons next others =>
      obtain ⟨rfl, -⟩ := List.cons.inj heq
      exact absurd trivial (hbetween (.started p) (by simp))

theorem last_eq (h : TakeTurns running before) :
    running = some port ↔ before.find? Turn.isMonitor = some (.started port) := by
  induction h with
  | start => simp
  | started p => simp [Turn.isMonitor]
  | ended hends => rcases hends with rfl | rfl | rfl <;> simp [Turn.isMonitor]
  | uploadStarted _ _ ih => simpa [Turn.isMonitor] using ih

end TakeTurns

namespace Session

variable {s u : Session} {t : Task} {rest : List Task}

/-! ### Turns of a session -/

/-- The turns of a session so far leave the monitor running that it has or is
stopping, and the reader of its monitor knows the port of it. -/
structure Turning (s : Session) : Prop where
  order : TakeTurns (s.watched.map Monitor.port) (turns s.history)
  ports : ∀ monitor, s.monitor = some monitor → ∀ r ∈ s.readers, r.epoch = monitor.epoch →
    r.port = monitor.port

/-- While a session has a monitor, nobody is at the board, so no task is stopping
another one. -/
theorem Orderly.stopping_eq_none (h : s.Orderly) {monitor : Monitor}
    (hm : s.monitor = some monitor) :
    (s.tasks.head?.bind fun t => t.stage.monitor?) = none := by
  rw [Option.bind_eq_none_iff]
  intro t ht
  by_cases hs : t.stage = .granted
  · rw [hs]
    rfl
  · rw [(h.acting t ht hs).1] at hm
    cases hm

/-- Of the calls that are answered with an error, a turn is the close. -/
theorem Kept.turns_answered (h : s.Kept) {id : Nat} {c : Call} (hs : s.awaited = [(id, c)])
    (e : DeviceError) :
    turns (.answered id (some e) :: s.history) =
      (if c = .stopSerial then [.notClosed] else []) ++ turns s.history := by
  have hawaited := h.awaited_eq.trans hs
  by_cases hc : c = .stopSerial <;> simp [turns, Happening.turn?, hawaited, hc]

namespace Turning

theorem start : start.Turning :=
  ⟨.start, by simp [Session.start]⟩

/-- Nothing happens to the monitors. -/
theorem beside (h : s.Turning) (hturns : turns u.history = turns s.history)
    (hwatched : u.watched = s.watched) (hmonitor : u.monitor = s.monitor)
    (hreaders : ∀ r ∈ u.readers, ∃ q ∈ s.readers, q.epoch = r.epoch ∧ q.port = r.port) :
    u.Turning where
  order := by
    rw [hturns, hwatched]
    exact h.order
  ports monitor hm r hr hepoch := by
    obtain ⟨q, hq, hsame, hport⟩ := hreaders r hr
    rw [← hport]
    exact h.ports monitor (hmonitor ▸ hm) q hq (hsame.trans hepoch)

/-- A session without a monitor, which may be stopping one. -/
theorem of_none {m : Option Monitor} (hm : u.monitor = none) (hwatched : u.watched = m)
    (horder : TakeTurns (m.map Monitor.port) (turns u.history)) : u.Turning where
  order := hwatched ▸ horder
  ports monitor hsome := by
    rw [hm] at hsome
    cases hsome

theorem order_of_watched (h : s.Turning) {m : Option Monitor} (hm : s.watched = m) :
    TakeTurns (m.map Monitor.port) (turns s.history) :=
  hm ▸ h.order

/-- A port has been opened, and nothing was running. -/
theorem opened (hk : s.Kept) (h : s.Turning) (hfree : s.watched = none) (id : Nat) (port : String)
    (rest : List Task) : ((s.portOpened id port).departed rest id .done).Turning := by
  have hnone := h.order_of_watched hfree
  refine ⟨?_, ?_⟩
  · rw [watched_departed]
    exact hnone.started port
  · rintro _ ⟨⟩ r hr hepoch
    rcases List.mem_append.mp hr with hr | hr
    · -- The readers of earlier monitors have lower numbers.
      have hle : r.epoch ≤ s.epoch := hk.attended.known r hr
      simp only at hepoch
      omega
    · rw [List.mem_singleton.mp hr]

/-- The reader of the monitor has come to the end of its stream. -/
theorem monitorOver (ho : s.Orderly) (h : s.Turning) {r : Reader} (hr : r ∈ s.readers)
    (hm : s.monitor.map Monitor.epoch = some r.epoch) :
    ({ s with
      phase := .idle
      monitor := none
      history := .told (.monitorClosed r.port) :: s.history }.dropReader r.epoch).Turning := by
  obtain ⟨monitor, hmonitor, hepoch⟩ := Option.map_eq_some_iff.mp hm
  have hport := h.ports monitor hmonitor r hr hepoch.symm
  have hrunning := h.order_of_watched (m := some monitor) (by simp [watched, hmonitor])
  have hfree := ho.stopping_eq_none hmonitor
  have hends : Turn.Ends monitor.port (.closed r.port) := .inr (.inl (by rw [hport]))
  refine of_none (m := none) rfl ?_ (hrunning.ended hends)
  simpa [watched, dropReader] using hfree

theorem move (hk : s.Kept) (h : s.Turning) (m : Move s u) : u.Turning := by
  have ho := hk.orderly
  have hsame : ∀ r ∈ s.readers, ∃ q ∈ s.readers, q.epoch = r.epoch ∧ q.port = r.port :=
    fun r hr => ⟨r, hr, rfl, rfl⟩
  cases m with
  | refuse => exact h.beside rfl rfl rfl hsame
  | wait _ _ hne =>
    refine h.beside rfl ?_ rfl hsame
    simp only [watched, received, head?_behind hne]
  | come _ _ hnil =>
    refine h.beside rfl ?_ rfl hsame
    simp [watched, received, hnil, Stage.monitor?]
  | listBusy ht | monitorBusy ht | nothingToStop ht =>
    refine h.beside rfl ?_ rfl hsame
    rw [watched_departed, watched_of_granted ht rfl]
  | list ht | openPort ht | close ht =>
    refine h.beside rfl ?_ rfl hsame
    simp [watched, ht, Stage.monitor?]
  | teardown ht _ hm =>
    exact of_none rfl rfl (h.order_of_watched ((watched_of_granted ht rfl).trans hm))
  | upload ht hm =>
    have hnone := h.order_of_watched ((watched_of_granted ht rfl).trans hm)
    refine of_none (m := none) hm ?_ (hnone.uploadStarted _)
    simp [watched, hm, Stage.monitor?]
  | listed _ ht | uploaded ht =>
    refine h.beside rfl ?_ rfl hsame
    rw [watched_departed, ho.watched_eq ht (by simp), (ho.acts ht (by simp)).1]
    rfl
  | listFailed e ht | openFailed e ht | uploadFailed e ht =>
    refine h.beside (hk.turns_answered (awaited_of_tasks ht) e) ?_ rfl hsame
    rw [watched_departed, ho.watched_eq ht (by simp), (ho.acts ht (by simp)).1]
    rfl
  | opened ht => exact h.opened hk (ho.watched_eq ht (by simp)) _ _ _
  | stopped ht =>
    have hrunning := h.order_of_watched (ho.watched_eq ht (by simp))
    have hm := (ho.acts ht (by simp)).1
    refine of_none (m := none) hm ?_ (hrunning.ended (.inl rfl))
    rw [watched_departed]
    exact hm
  | tornDown ht =>
    have hrunning := h.order_of_watched (ho.watched_eq ht (by simp))
    have hm := (ho.acts ht (by simp)).1
    have hended := TakeTurns.ended (.inl rfl) hrunning
    refine of_none (m := none) hm ?_ (hended.uploadStarted _)
    simp [watched, hm, Stage.monitor?]
  -- A monitor that could not be stopped is gone all the same, and its turn has ended.
  | stopFailed e ht | teardownFailed e ht =>
    have hrunning := h.order_of_watched (ho.watched_eq ht (by simp))
    have hm := (ho.acts ht (by simp)).1
    have hturns := hk.turns_answered (awaited_of_tasks ht) e
    have hended := TakeTurns.ended (.inr (.inr rfl)) hrunning
    refine of_none (m := none) hm ?_ (hturns ▸ hended)
    rw [watched_departed]
    exact hm
  | lineArrived | hangUp | pass =>
    refine h.beside rfl rfl rfl fun r hr => ?_
    obtain ⟨q, hq, ⟨-, rfl⟩ | ⟨-, rfl⟩⟩ := exists_of_mem_changed hr
    · exact ⟨q, hq, rfl, rfl⟩
    · exact ⟨_, hq, rfl, rfl⟩
  | drop | readerOver =>
    exact h.beside rfl rfl rfl fun r hr => ⟨r, List.mem_of_mem_filter hr, rfl, rfl⟩
  | monitorOver hr _ _ _ hm => exact h.monitorOver ho hr hm

end Turning

/-! ### What everyone is told -/

/-- What a session has told agrees with what it is doing. A monitor that has
started ends once before something else begins, or the session is no longer
monitoring and all tasks have ended. What ends comes after its start, with nothing
between. When all tasks have ended, the session is monitoring if and only if the
last monitor has started and not ended. -/
structure Told (s : Session) : Prop where
  ended : ∀ {later between earlier next port},
    turns s.history = later ++ next :: (between ++ .started port :: earlier) → next.Begins →
    (∀ t ∈ between, ¬ t.Begins) → ∃ t, between = [t] ∧ t.Ends port
  concluded : ∀ {between earlier port}, turns s.history = between ++ .started port :: earlier →
    (∀ t ∈ between, ¬ t.Begins) → s.tasks = [] → s.phase ≠ .monitoring →
    ∃ t, between = [t] ∧ t.Ends port
  begun : ∀ {later earlier t}, turns s.history = later ++ t :: earlier → ¬ t.Begins →
    ∃ port before, earlier = .started port :: before ∧ t.Ends port
  running : s.tasks = [] → (s.phase = .monitoring ↔
    ∃ port, (turns s.history).find? Turn.isMonitor = some (.started port))

theorem Orderly.monitoring_iff (h : s.Orderly) (hnil : s.tasks = []) :
    s.phase = .monitoring ↔ ∃ port, s.watched.map Monitor.port = some port := by
  have hresting : s.Resting := h.resting (by simp [hnil])
  rw [Resting] at hresting
  rw [hresting]
  cases hm : s.monitor <;> simp [watched, hm, hnil]

/-- Whatever has happened, each monitor that has started ends once before the
next begins or something is uploaded: it is stopped, or its stream ends, or the
port could not be closed. When all tasks have ended, the session is monitoring if
and only if the last monitor has not ended in one of these ways. -/
theorem reached_told (run : Run start s) : s.Told := by
  obtain ⟨-, hk, h⟩ := run.with_kept (I := Turning) .start fun _ _ _ hk h m => h.move hk m
  have hiff := hk.orderly.monitoring_iff
  constructor
  case ended =>
    intro later between earlier next port heq hnext hbetween
    have horder := h.order
    rw [heq] at horder
    obtain ⟨_, hrest⟩ := horder.of_append
    rcases (hrest.of_begins hnext).since_started hbetween with ⟨hsome, -⟩ | ⟨-, hended⟩
    · cases hsome
    · exact hended
  case concluded =>
    intro between earlier port heq hbetween hnil hphase
    have horder := h.order
    rw [heq] at horder
    rcases horder.since_started hbetween with ⟨hsome, -⟩ | ⟨-, hended⟩
    · exact absurd ((hiff hnil).mpr ⟨port, hsome⟩) hphase
    · exact hended
  case begun =>
    intro later earlier t heq ht
    have horder := h.order
    rw [heq] at horder
    obtain ⟨_, hrest⟩ := horder.of_append
    exact (hrest.of_not_begins ht).2
  case running =>
    intro hnil
    rw [hiff hnil]
    exact exists_congr fun port => h.order.last_eq

/-- A monitor whose stream ends, and another one that an upload stops. -/
theorem reached_told_of_stopped :
    ∃ s, Run start s ∧
      turns s.history =
        [.uploadStarted "COM3", .stopped "COM4", .started "COM4", .closed "COM3", .started "COM3"] ∧
      s.Told := by
  obtain ⟨s, run, hturns⟩ :=
    exists_run [.ask 0 (.monitor "COM3"), .opened 0 (.ok ()), .hangUp 1, .read 1,
        .ask 1 (.monitor "COM4"), .opened 1 (.ok ()), .ask 2 (.upload "sketch" "uno" "COM3"),
        .read 2, .proceed 2, .closed 2 (.ok ())]
      (fun s => turns s.history = [.uploadStarted "COM3", .stopped "COM4", .started "COM4",
        .closed "COM3", .started "COM3"])
      (by decide +kernel)
  exact ⟨s, run, hturns, reached_told run⟩

def lastOfMonitor? (s : Session) : Option SessionEvent :=
  s.history.findSome? fun
    | .told (.monitorStarted port) => some (.monitorStarted port)
    | .told (.monitorStopped port) => some (.monitorStopped port)
    | .told (.monitorClosed port) => some (.monitorClosed port)
    | _ => none

/-- When the bridge cannot close the port of a monitor, the session is idle and
nobody was told that the monitor has ended. -/
theorem idle_after_started :
    ¬ ∀ s, Run start s → s.tasks = [] →
      (s.phase = .monitoring ↔ ∃ port, s.lastOfMonitor? = some (.monitorStarted port)) := by
  intro hagree
  obtain ⟨s, run, hnil, hphase, hlast⟩ :=
    exists_run [.ask 0 (.monitor "COM3"), .opened 0 (.ok ()), .ask 1 .stop, .read 1, .proceed 1,
        .closed 1 (.error (.monitor "COM3" "stuck"))]
      (fun s => s.tasks = [] ∧ s.phase = .idle ∧
        s.lastOfMonitor? = some (.monitorStarted "COM3"))
      (by decide +kernel)
  have hmonitoring := (hagree s run hnil).mpr ⟨_, hlast⟩
  cases hphase.symm.trans hmonitoring

end Session

end BlockSketch
