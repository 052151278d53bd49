import BlockSketch.Proofs.Device.Exclusive

/-!
Who reads. A reader is there for the monitor of its session, or for the one that
the first task in line has taken from it and waits to see the end of. Nothing is
closed, uploaded or opened before that reader has ended, so while any of this
goes on nobody reads, and no line reaches the feed.
-/

namespace BlockSketch

/-- The monitor whose reader a task waits to see the end of. -/
def Stage.joining? : Stage → Option Monitor
  | .joining monitor => some monitor
  | _ => none

namespace Session

variable {s u : Session} {t : Task} {rest : List Task}

/-- The monitor that may have a reader: that of the session, or the one whose
reader the first task waits to see the end of. -/
def attended (s : Session) : Option Monitor :=
  s.monitor.or (s.tasks.head?.bind fun t => t.stage.joining?)

theorem attended_departed (s : Session) (rest : List Task) (id : Nat) (outcome : Outcome) :
    (s.departed rest id outcome).attended = s.monitor := by
  cases rest <;> cases hm : s.monitor <;> simp [attended, departed, moveUp, Stage.joining?, hm]

theorem attended_of_granted (ht : s.tasks = t :: rest) (hs : t.stage = .granted) :
    s.attended = s.monitor := by
  simp [attended, ht, hs, Stage.joining?]

theorem Orderly.attended_eq (h : s.Orderly) (ht : s.tasks = t :: rest)
    (hs : t.stage ≠ .granted) : s.attended = t.stage.joining? := by
  simp [attended, ht, (h.acts ht hs).1]

/-- Every reader is that of the monitor that may have one, which is the latest. -/
structure Tended (s : Session) : Prop where
  attended : ∀ r ∈ s.readers, s.attended.map Monitor.epoch = some r.epoch
  latest : ∀ r ∈ s.readers, r.epoch = s.epoch

namespace Tended

theorem of_nil (h : s.readers = []) : s.Tended :=
  ⟨by simp [h], by simp [h]⟩

/-- Where no monitor may have a reader, nobody reads. -/
theorem readers_eq_nil (h : s.Tended) (hnone : s.attended = none) : s.readers = [] := by
  refine List.eq_nil_iff_forall_not_mem.mpr fun r hr => ?_
  have hattended := h.attended r hr
  rw [hnone] at hattended
  cases hattended

/-- Nobody comes to read. -/
theorem beside (h : s.Tended) (hattended : u.attended = s.attended) (hepoch : u.epoch = s.epoch)
    (hreaders : ∀ r ∈ u.readers, ∃ q ∈ s.readers, q.epoch = r.epoch) : u.Tended where
  attended r hr := by
    obtain ⟨q, hq, hsame⟩ := hreaders r hr
    rw [hattended, ← hsame]
    exact h.attended q hq
  latest r hr := by
    obtain ⟨q, hq, hsame⟩ := hreaders r hr
    rw [hepoch, ← hsame]
    exact h.latest q hq

/-- A task at the board that waits for no reader has none beside it. -/
theorem readers_of_acting (h : s.Tended) (ho : s.Orderly) (ht : s.tasks = t :: rest)
    (hs : t.stage ≠ .granted) (hjoining : t.stage.joining? = none) : s.readers = [] :=
  h.readers_eq_nil ((ho.attended_eq ht hs).trans hjoining)

/-- Without a monitor nobody reads when a task gets the port. -/
theorem readers_of_granted (h : s.Tended) (ht : s.tasks = t :: rest) (hs : t.stage = .granted)
    (hm : s.monitor = none) : s.readers = [] :=
  h.readers_eq_nil ((attended_of_granted ht hs).trans hm)

/-- When the reader that it waits for has ended, a task has none beside it. -/
theorem readers_of_joined (h : s.Tended) (ho : s.Orderly) {id : Nat} {job : Job}
    {monitor : Monitor} (ht : s.tasks = ⟨id, job, .joining monitor⟩ :: rest)
    (hended : s.reader? monitor.epoch = none) : s.readers = [] := by
  refine List.eq_nil_iff_forall_not_mem.mpr fun r hr => ?_
  have hattended := h.attended r hr
  rw [ho.attended_eq ht (by simp)] at hattended
  have hnot : r.epoch ≠ monitor.epoch := by
    have hall := List.find?_eq_none.mp hended r hr
    simpa using hall
  exact hnot (Option.some.inj hattended).symm

theorem start : start.Tended :=
  of_nil rfl

/-- A port has been opened, and its reader is the only one. -/
theorem opened (hnobody : s.readers = []) (id : Nat) (port : String) (rest : List Task) :
    ((s.portOpened id port).departed rest id .done).Tended := by
  have hreaders : ((s.portOpened id port).departed rest id .done).readers =
      [⟨s.epoch + 1, port, [], false, false⟩] := by
    simp only [departed, portOpened, hnobody, List.nil_append]
  refine ⟨fun r hr => ?_, fun r hr => ?_⟩
  · rw [hreaders] at hr
    rw [List.mem_singleton.mp hr, attended_departed]
    rfl
  · rw [hreaders] at hr
    rw [List.mem_singleton.mp hr]
    rfl

theorem move (ho : s.Orderly) (h : s.Tended) (m : Move s u) : u.Tended := by
  have hsame : ∀ r ∈ s.readers, ∃ q ∈ s.readers, q.epoch = r.epoch :=
    fun r hr => ⟨r, hr, rfl⟩
  cases m with
  | refuse => exact h.beside rfl rfl hsame
  | wait _ _ hne =>
    refine h.beside ?_ rfl hsame
    simp only [Session.attended, received, head?_behind hne]
  | come _ _ hnil =>
    refine h.beside ?_ rfl hsame
    simp [Session.attended, received, hnil, Stage.joining?]
  | listBusy ht | monitorBusy ht | nothingToStop ht =>
    refine h.beside ?_ rfl hsame
    rw [attended_departed, attended_of_granted ht rfl]
  | list ht | openPort ht | upload ht =>
    refine h.beside ?_ rfl hsame
    simp [Session.attended, ht, Stage.joining?]
  | teardown ht _ hm =>
    refine h.beside ?_ rfl fun r hr => ?_
    · rw [attended_of_granted ht rfl, hm]
      rfl
    · obtain ⟨q, hq, rfl⟩ := List.mem_map.mp hr
      exact ⟨q, hq, by split <;> rfl⟩
  | close ht hended => exact of_nil (h.readers_of_joined ho ht hended)
  | listed _ ht | listFailed _ ht | openFailed _ ht | stopped ht | stopFailed _ ht | tornDown ht
  | teardownFailed _ ht | uploaded ht | uploadFailed _ ht =>
    exact of_nil (h.readers_of_acting ho ht (by simp) rfl)
  | opened ht => exact opened (h.readers_of_acting ho ht (by simp) rfl) _ _ _
  | lineArrived | hangUp | pass =>
    refine h.beside rfl rfl fun r hr => ?_
    obtain ⟨q, hq, rfl⟩ := List.mem_map.mp hr
    exact ⟨q, hq, by split <;> rfl⟩
  | drop | readerOver =>
    exact h.beside rfl rfl fun r hr => ⟨r, List.mem_of_mem_filter hr, rfl⟩
  | @monitorOver r hr _ _ _ hm =>
    refine of_nil (List.filter_eq_nil_iff.mpr fun q hq => ?_)
    have hmine := h.attended q hq
    obtain ⟨monitor, hmonitor, hepoch⟩ := Option.map_eq_some_iff.mp hm
    rw [Session.attended, hmonitor] at hmine
    have heq : q.epoch = r.epoch := (Option.some.inj hmine).symm.trans hepoch
    simp [heq]

end Tended

structure Sound (s : Session) : Prop where
  line : s.Line
  kept : s.Kept
  tended : s.Tended

namespace Sound

theorem start : start.Sound :=
  ⟨line_start, .start, .start⟩

theorem move (h : s.Sound) (m : Move s u) : u.Sound :=
  ⟨m.keeps_line h.line, h.kept.move m, h.tended.move h.kept.orderly m⟩

theorem of_run (h : s.Sound) (run : Run s u) : u.Sound :=
  (run.keep (I := Sound) (fun _ _ _ h m => h.move m) h.line h).2

theorem of_step {a : Action} (h : s.Sound) (hstep : s.step? a = some u) : u.Sound :=
  h.of_run (.step (.refl s) hstep)

end Sound

/-! ### Silence -/

/-- There is nobody who could send a line to the feed. -/
structure Silent (s : Session) : Prop where
  monitor : s.monitor = none
  readers : s.readers = []

/-- From one session to another, either a monitor was started, or there was
silence. -/
def Hush (s u : Session) : Prop :=
  ∃ news, u.history = news ++ s.history ∧
    ((∀ port, .told (.monitorStarted port) ∉ news) → u.Silent ∧ u.feed = s.feed)

theorem Hush.refl (h : s.Silent) : s.Hush s :=
  ⟨[], rfl, fun _ => ⟨h, rfl⟩⟩

/-- As long as no monitor is started, a move keeps the silence. -/
theorem Silent.move (h : s.Silent) (m : Move s u) : s.Hush u := by
  have hnobody : ∀ {r : Reader}, r ∉ s.readers := by simp [h.readers]
  cases m with
  | refuse => exact ⟨[_, _], rfl, fun _ => ⟨⟨h.monitor, h.readers⟩, rfl⟩⟩
  | wait | come | listBusy | list | monitorBusy | openPort | nothingToStop | close =>
    exact ⟨[_], rfl, fun _ => ⟨⟨h.monitor, h.readers⟩, rfl⟩⟩
  | upload | listed | listFailed | openFailed | stopFailed =>
    exact ⟨[_, _], rfl, fun _ => ⟨⟨h.monitor, h.readers⟩, rfl⟩⟩
  | stopped | teardownFailed | uploaded | uploadFailed =>
    exact ⟨[_, _, _], rfl, fun _ => ⟨⟨h.monitor, h.readers⟩, rfl⟩⟩
  | tornDown => exact ⟨[_, _, _, _], rfl, fun _ => ⟨⟨h.monitor, h.readers⟩, rfl⟩⟩
  | @opened _ port => exact ⟨[_, _, _], rfl, fun hnone => absurd (by simp) (hnone port)⟩
  | teardown _ _ hm => cases h.monitor.symm.trans hm
  | lineArrived | hangUp =>
    refine ⟨[_], rfl, fun _ => ⟨⟨h.monitor, ?_⟩, rfl⟩⟩
    simp [lineArrives, streamEnds, modifyReader, note, h.readers]
  | drop hr | pass hr | readerOver hr | monitorOver hr => exact absurd hr hnobody

/-- As long as no monitor is started, the silence lasts. -/
theorem Silent.run (hline : s.Line) (h : s.Silent) (run : Run s u) : s.Hush u := by
  refine (run.keep (I := s.Hush) ?_ hline (.refl h)).2
  rintro v w - ⟨news, hnews, hkept⟩ m
  by_cases hstarted : ∀ port, .told (.monitorStarted port) ∉ news
  · obtain ⟨hsilent, hfeed⟩ := hkept hstarted
    obtain ⟨more, hmore, hnext⟩ := hsilent.move m
    refine ⟨more ++ news, by rw [hmore, hnews, List.append_assoc], fun hnone => ?_⟩
    obtain ⟨hsilent', hfeed'⟩ :=
      hnext fun port hmem => hnone port (List.mem_append_left _ hmem)
    exact ⟨hsilent', hfeed'.trans hfeed⟩
  · obtain ⟨more, hmore⟩ := m.history_suffix
    refine ⟨more ++ news, by rw [← hmore, hnews, List.append_assoc], fun hnone => ?_⟩
    exact absurd (fun port hmem => hnone port (List.mem_append_right _ hmem)) hstarted

end Session

end BlockSketch
