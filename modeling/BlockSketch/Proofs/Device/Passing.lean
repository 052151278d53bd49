import BlockSketch.Proofs.Device.Calls
import BlockSketch.Proofs.Device.Readers

/-!
How lines come to the feed. A stream is read by one reader, which passes its lines
on in the order in which they arrive, so what has come to the feed since a monitor
was started is the beginning of what has arrived on its stream, and the feed keeps
the last of it. A reader is gone before the port of its monitor is closed. So when
a monitor has been stopped, for whatever reason and with whatever result, nothing
of its stream comes to the feed any more, even if lines wait there.
-/

namespace BlockSketch

/-- The lines that have come to the feed since a monitor was started last. -/
def linesSince : List Happening → List String
  | [] => []
  | .told (.monitorStarted _) :: _ => []
  | .linePassed _ line :: before => linesSince before ++ [line]
  | _ :: before => linesSince before

def streamLines (epoch : Nat) : List Happening → List String
  | [] => []
  | .lineArrived e line :: before =>
    if e = epoch then streamLines epoch before ++ [line] else streamLines epoch before
  | _ :: before => streamLines epoch before

namespace Session

variable {s u v : Session} {id : Nat} {actions : List Action}

/-! ### From the stream to the feed -/

/-- Between the latest stream and the feed there is one reader, and what has arrived
on the stream has come to the feed or waits for the reader, in this order. -/
structure Flowing (s : Session) : Prop where
  passed : linesSince s.history <+: streamLines s.epoch s.history
  arrived : ∀ r ∈ s.readers, streamLines s.epoch s.history = linesSince s.history ++ r.arrived
  recent : s.feed.recent = keepLast Feed.recentLimit (linesSince s.history)
  opened : ∀ e ∈ s.streams, e ≤ s.epoch
  fresh : ∀ e, s.epoch < e → streamLines e s.history = []

namespace Flowing

theorem start : start.Flowing :=
  ⟨List.nil_prefix, by simp [Session.start], rfl, by simp [Session.start], fun _ _ => rfl⟩

/-- Nothing happens to the lines. -/
theorem beside (h : s.Flowing) (hsince : linesSince u.history = linesSince s.history)
    (hstream : ∀ e, streamLines e u.history = streamLines e s.history)
    (hepoch : u.epoch = s.epoch) (hfeed : u.feed = s.feed)
    (hreaders : ∀ r ∈ u.readers, ∃ q ∈ s.readers, q.arrived = r.arrived)
    (hstreams : ∀ e ∈ u.streams, e ∈ s.streams) : u.Flowing where
  passed := by
    rw [hsince, hstream, hepoch]
    exact h.passed
  arrived r hr := by
    obtain ⟨q, hq, hsame⟩ := hreaders r hr
    rw [hsince, hstream, hepoch, ← hsame]
    exact h.arrived q hq
  recent := by rw [hfeed, hsince, h.recent]
  opened e he := hepoch ▸ h.opened e (hstreams e he)
  fresh e he := by
    rw [hstream]
    exact h.fresh e (hepoch ▸ he)

/-- A port is opened: its stream is new, and the feed is empty. -/
theorem portOpened (h : s.Flowing) (id : Nat) (port : String) (hnobody : s.readers = []) :
    (s.portOpened id port).Flowing where
  passed := List.nil_prefix
  arrived r hr := by
    have hstream : streamLines (s.epoch + 1) s.history = [] := h.fresh _ (Nat.lt_succ_self _)
    simp only [Session.portOpened, hnobody, List.nil_append, List.mem_singleton] at hr
    rw [hr]
    exact hstream
  recent := rfl
  opened e he := by
    rcases List.mem_append.mp he with he | he
    · exact Nat.le_succ_of_le (h.opened e he)
    · exact Nat.le_of_eq (List.mem_singleton.mp he)
  fresh e he := h.fresh e (Nat.lt_of_succ_lt he)

/-- A line arrives, on the latest stream or on one that was left behind. Readers
are those of the latest stream, so that a line of an older one is read by nobody. -/
theorem lineArrives {epoch : Nat} {text : String} (h : s.Flowing) (htended : s.Tended)
    (hopen : epoch ∈ s.streams) : (s.lineArrives epoch text).Flowing := by
  have hknown := h.opened epoch hopen
  have hfresh : ∀ e, s.epoch < e → streamLines e (.lineArrived epoch text :: s.history) = [] := by
    intro e he
    rw [streamLines, if_neg (by omega)]
    exact h.fresh e he
  by_cases hlatest : epoch = s.epoch
  · have hstream : streamLines s.epoch (.lineArrived epoch text :: s.history) =
        streamLines s.epoch s.history ++ [text] := by
      rw [streamLines, if_pos hlatest]
    refine ⟨?_, fun r hr => ?_, h.recent, h.opened, hfresh⟩
    · show linesSince s.history <+: streamLines s.epoch (.lineArrived epoch text :: s.history)
      rw [hstream]
      exact h.passed.trans (List.prefix_append _ _)
    · obtain ⟨q, hq, rfl⟩ := List.mem_map.mp hr
      rw [if_pos ((htended.latest q hq).trans hlatest.symm)]
      refine hstream.trans ?_
      rw [h.arrived q hq, List.append_assoc]
      rfl
  · have hstream : streamLines s.epoch (.lineArrived epoch text :: s.history) =
        streamLines s.epoch s.history := by
      rw [streamLines, if_neg hlatest]
    refine ⟨?_, fun r hr => ?_, h.recent, h.opened, hfresh⟩
    · show linesSince s.history <+: streamLines s.epoch (.lineArrived epoch text :: s.history)
      rw [hstream]
      exact h.passed
    · obtain ⟨q, hq, rfl⟩ := List.mem_map.mp hr
      rw [if_neg fun heq => hlatest (heq.symm.trans (htended.latest q hq))]
      exact hstream.trans (h.arrived q hq)

/-- A reader passes a line on. -/
theorem pass {r : Reader} {text : String} {others : List String} (h : s.Flowing)
    (htended : s.Tended) (hr : r ∈ s.readers) (harrived : r.arrived = text :: others) :
    (({ s with
      feed := s.feed.publish text
      history := .linePassed r.epoch text :: s.history } : Session).modifyReader r.epoch
        fun r => { r with arrived := others }).Flowing := by
  have hstream : streamLines s.epoch s.history = linesSince s.history ++ [text] ++ others := by
    rw [h.arrived r hr, harrived, List.append_assoc]
    rfl
  refine ⟨⟨others, hstream.symm⟩, fun r' hr' => ?_, ?_, h.opened, h.fresh⟩
  · obtain ⟨q, hq, rfl⟩ := List.mem_map.mp hr'
    rw [if_pos ((htended.latest q hq).trans (htended.latest r hr).symm)]
    exact hstream
  · show keepLast Feed.recentLimit (s.feed.recent ++ [text]) = _
    rw [h.recent, keepLast_keepLast_append]
    rfl

theorem move (hk : s.Kept) (htended : s.Tended) (h : s.Flowing) (m : Move s u) : u.Flowing := by
  have hsame : ∀ r ∈ s.readers, ∃ q ∈ s.readers, q.arrived = r.arrived := fun r hr => ⟨r, hr, rfl⟩
  have hopen : ∀ e ∈ s.streams, e ∈ s.streams := fun _ => id
  cases m with
  | refuse | wait | come | listBusy | list | monitorBusy | openPort | nothingToStop | upload
  | close | listed | listFailed | openFailed | stopFailed | teardownFailed | uploaded
  | uploadFailed =>
    exact h.beside rfl (fun _ => rfl) rfl rfl hsame hopen
  | stopped | tornDown => exact h.beside rfl (fun _ => rfl) rfl rfl hsame nofun
  | teardown =>
    refine h.beside rfl (fun _ => rfl) rfl rfl (fun r hr => ?_) hopen
    obtain ⟨q, hq, rfl⟩ := List.mem_map.mp hr
    exact ⟨q, hq, by split <;> rfl⟩
  | hangUp =>
    refine h.beside rfl (fun _ => rfl) rfl rfl (fun r hr => ?_) fun _ => List.mem_of_mem_filter
    obtain ⟨q, hq, rfl⟩ := List.mem_map.mp hr
    exact ⟨q, hq, by split <;> rfl⟩
  | drop | readerOver | monitorOver =>
    exact h.beside rfl (fun _ => rfl) rfl rfl
      (fun r hr => ⟨r, List.mem_of_mem_filter hr, rfl⟩) hopen
  -- No reader is left from before, so nobody misses what the cleared feed held.
  | @opened id port _ ht =>
    have hnobody := htended.readers_of_acting hk.orderly ht (by simp) rfl
    have hopened := h.portOpened id port hnobody
    exact ⟨hopened.passed, hopened.arrived, hopened.recent, hopened.opened, hopened.fresh⟩
  | lineArrived text hopen => exact h.lineArrives htended hopen
  | pass hr _ harrived => exact h.pass htended hr harrived

end Flowing

/-! ### Monitors that do not start -/

/-- Either a task leaves the feed alone in all its steps, or it does not fail. -/
def Cautious (s : Session) (id : Nat) (actions : List Action) : Prop :=
  (∀ t ∈ s.ownSteps id actions, t.after.feed = t.before.feed) ∨
    ∀ e, .finished id (.failed e) ∉ s.deeds id actions

namespace Cautious

theorem nil (h : s.ownSteps id actions = []) : s.Cautious id actions :=
  .inl (by simp [h])

/-- The last step of a task, which leaves the feed alone. -/
theorem last {x y : Session} {a : Action} {later : List Action}
    (hown : s.ownSteps id actions = ⟨x, a, y⟩ :: y.ownSteps id later)
    (hfeed : y.feed = x.feed) (hnone : y.ownSteps id later = []) : s.Cautious id actions :=
  .inl (by simpa [hown, hnone] using hfeed)

/-- A step that leaves the feed alone, and is not the last. -/
theorem step {x y : Session} {a : Action} {later : List Action} (new : List Happening)
    (hown : s.ownSteps id actions = ⟨x, a, y⟩ :: y.ownSteps id later)
    (hnew : y.history = new.reverse ++ x.history) (hfeed : y.feed = x.feed)
    (hfailed : ∀ e, .finished id (.failed e) ∉ new) (h : y.Cautious id later) :
    s.Cautious id actions := by
  rcases h with hkept | hwell
  · refine .inl fun t ht => ?_
    rw [hown] at ht
    rcases List.mem_cons.mp ht with rfl | ht
    · exact hfeed
    · exact hkept t ht
  · refine .inr fun e hmem => ?_
    rw [deeds_eq new hown hnew, List.mem_append] at hmem
    exact hmem.elim (hfailed e) (hwell e)

end Cautious

section Monitor

variable {port : String} {job : Job} {rest : List Task} {later : List Action}

/-- A task that opens a port clears the feed, or fails and leaves it alone. -/
theorem Sound.opening (h : s.Sound) (ht : s.task? id = some ⟨id, .monitor port, .opening⟩)
    (hsteps : s.stepAll? actions = some v) (hnot : NotAsked id actions) :
    s.Cautious id actions := by
  rcases h.line.next_of_served ht (by simp) hsteps hnot with
    ⟨hnone, -⟩ | ⟨x, a, y, later, rest, hnext, hrest, hx⟩
  · exact .nil hnone
  · have hline := h.line.of_run hnext.run
    cases onward_of_step? hx hnext.step hnext.own with
    | opened answer =>
      have hgone := hline.gone hrest (hline.tasks_opened hrest port answer)
      have hnone := ((hline.of_run (.step (.refl x) hnext.step)).nothing_after hgone hnext.rest
        hnext.notAsked.tail).1
      cases answer with
      | ok =>
        have hopened : x.opened id port (.ok ()) = _ :=
          Line.leave_eq (s := x.portOpened id port) hline hrest .done
        refine .inr fun e hmem => ?_
        rw [deeds_eq [.answered id none, .told (.monitorStarted port), .finished id .done]
          hnext.steps (by rw [hopened]; rfl), deeds, hnone] at hmem
        simp at hmem
      | error e =>
        refine .last hnext.steps ?_ hnone
        rw [Session.opened, Line.leave_eq (s := x.note (.answered id (some e))) hline hrest]
        rfl

/-- A task that is to start a monitor gets the port: it opens the port, or fails. -/
theorem Sound.enterMonitor (h : s.Sound) (ht : s.tasks = ⟨id, .monitor port, .granted⟩ :: rest)
    (hu : u = s.enter id (.monitor port)) (hsound : u.Sound)
    (hsteps : u.stepAll? actions = some v) (hnot : NotAsked id actions) :
    u.feed = s.feed ∧ (u.ownSteps id actions = [] ∨
      u.history = .called id (.startSerial port) :: s.history ∧ u.Cautious id actions) := by
  by_cases hidle : s.phase = .idle
  · have henter : u = s.call id (.startSerial port) .opening := by
      simp only [hu, Session.enter, hidle, if_true]
    rw [h.line.call_eq ht] at henter
    refine ⟨by rw [henter], .inr ⟨by rw [henter], ?_⟩⟩
    exact hsound.opening (task?_of_first (by rw [henter])) hsteps hnot
  · have henter : u = s.leave id (.failed (.busy s.phase.busyReason)) := by
      simp only [hu, Session.enter, hidle, if_false]
    rw [h.line.leave_eq ht] at henter
    have hgone := h.line.gone ht (congrArg Session.tasks henter)
    exact ⟨by rw [henter]; rfl, .inl (hsound.line.nothing_after hgone hsteps hnot).1⟩

/-- A request to start a monitor that fails leaves the feed alone. -/
theorem Sound.askMonitor (h : s.Sound)
    (hsteps : s.stepAll? (.ask id (.monitor port) :: later) = some v) (hnot : NotAsked id later) :
    s.Cautious id (.ask id (.monitor port) :: later) := by
  obtain ⟨u, hstep, hlater⟩ := exists_of_stepAll?_cons hsteps
  have hown : s.ownSteps id (.ask id (.monitor port) :: later) =
      ⟨s, .ask id (.monitor port), u⟩ :: u.ownSteps id later := ownSteps_cons hstep rfl
  have hu := h.of_step hstep
  cases hr : s.receive (.monitor port) with
  | error outcome =>
    obtain ⟨heq, hgone⟩ := refused hstep hr
    exact .last hown (by rw [heq]) (hu.line.nothing_after hgone hlater hnot).1
  | ok job =>
    obtain rfl : job = .monitor port := by
      simp only [receive] at hr
      split at hr <;> cases hr
      rfl
    rcases h.line.asked hstep hr with ⟨hnil, henter⟩ | ⟨hlast, hqueued⟩
    · have hcome : (s.withFirst id (.monitor port) (.monitor port)).Sound :=
        h.move (.come id hr hnil)
      obtain ⟨hfeed, hnone | ⟨hhistory, hcautious⟩⟩ :=
        hcome.enterMonitor rfl henter hu hlater hnot
      · exact .last hown hfeed hnone
      · exact .step [.asked id (.monitor port), .called id (.startSerial port)] hown
          hhistory hfeed (by simp) hcautious
    · refine .step [.asked id (.monitor port)] hown (by rw [hlast]; rfl)
        (by rw [hlast]; rfl) (by simp) ?_
      rcases hu.line.next_of_queued hqueued hlater hnot with
        ⟨hnone, -⟩ | ⟨x, a, y, more, rest, hnext, hrest, henter⟩
      · exact .nil hnone
      · have hsound := hu.of_run hnext.run
        obtain ⟨hfeed, hnone | ⟨hhistory, hcautious⟩⟩ := hsound.enterMonitor hrest henter
          (hsound.of_step hnext.step) hnext.rest hnext.notAsked.tail
        · exact .last hnext.steps hfeed hnone
        · exact .step [.called id (.startSerial port)] hnext.steps hhistory hfeed
            (by simp) hcautious

end Monitor

/-! ### Monitors that are stopped -/

/-- As long as no monitor is started, the feed stays as it is. -/
def Quiet (s : Session) : Prop :=
  ∀ u, Run s u → (∀ port, .told (.monitorStarted port) ∉ s.news u) → u.feed = s.feed

theorem Silent.quiet (h : s.Silent) (hline : s.Line) : s.Quiet := by
  intro u run hnone
  obtain ⟨news, hnews, hkept⟩ := h.run hline run
  exact (hkept (news_eq hnews ▸ hnone)).2

theorem readers_release (s : Session) : s.release.readers = s.readers := by
  unfold release
  split <;> rfl

/-- A task whose port has been closed neither finds a monitor nor leaves a reader. -/
theorem silent_of_closed {job : Job} {monitor : Monitor} {answer : Except DeviceError Unit}
    (hm : s.monitor = none) (hnobody : s.readers = []) :
    (s.closed id job monitor answer).Silent := by
  constructor <;> cases answer <;> cases job <;>
    simp [Session.closed, portClosed, beginUpload, leaveUpload, leaveIdle, leave, finish, call,
      setStage, tell, note, readers_release, hm, hnobody]

/-- When the bridge has answered a task that is closing a port, nobody reads. -/
theorem Sound.silent_closing (h : s.Sound) {job : Job} {monitor : Monitor} {rest : List Task}
    (ht : s.tasks = ⟨id, job, .closing monitor⟩ :: rest) (answer : Except DeviceError Unit) :
    (s.closed id job monitor answer).Silent :=
  silent_of_closed (h.kept.orderly.acts ht (by simp)).1
    (h.tended.readers_of_acting h.kept.orderly ht (by simp) rfl)

theorem Sound.silent_closed {answer : Except DeviceError Unit} (h : s.Sound)
    (hstep : s.step? (.closed id answer) = some u) : u.Silent := by
  obtain ⟨t, ht, hclosed⟩ := Option.bind_eq_some_iff.mp hstep
  split at hclosed
  next =>
    cases hclosed
    obtain ⟨rfl, rest, hrest⟩ := h.line.first_of_task? ht (by simp)
    exact h.silent_closing hrest answer
  next => cases hclosed

def EndsSilent (s : Session) (id : Nat) (actions : List Action) : Prop :=
  ∀ t ∈ s.ownSteps id actions, ∀ outcome, .finished id outcome ∈ t.news → t.after.Silent

namespace EndsSilent

theorem nil (h : s.ownSteps id actions = []) : s.EndsSilent id actions := by
  simp [EndsSilent, h]

/-- The last step of a task, after which there is silence. -/
theorem last {x y : Session} {a : Action} {later : List Action}
    (hown : s.ownSteps id actions = ⟨x, a, y⟩ :: y.ownSteps id later) (hsilent : y.Silent)
    (hnone : y.ownSteps id later = []) : s.EndsSilent id actions := by
  intro t ht _ _
  rw [hown, hnone] at ht
  rw [List.mem_singleton.mp ht]
  exact hsilent

/-- A step that is not the last. -/
theorem step {x y : Session} {a : Action} {later : List Action} (new : List Happening)
    (hown : s.ownSteps id actions = ⟨x, a, y⟩ :: y.ownSteps id later)
    (hnew : y.history = new.reverse ++ x.history) (hgoes : ∀ outcome, .finished id outcome ∉ new)
    (h : y.EndsSilent id later) : s.EndsSilent id actions := by
  intro t ht outcome hmem
  rw [hown] at ht
  rcases List.mem_cons.mp ht with rfl | ht
  · exact absurd (Transition.news_eq hnew ▸ hmem) (hgoes outcome)
  · exact h t ht outcome hmem

end EndsSilent

section Stop

variable {monitor : Monitor} {rest : List Task} {later : List Action}

/-- A request to stop that waits for the bridge to close the port. -/
theorem Sound.stopClosing (h : s.Sound) (ht : s.task? id = some ⟨id, .stop, .closing monitor⟩)
    (hsteps : s.stepAll? actions = some v) (hnot : NotAsked id actions) :
    s.EndsSilent id actions := by
  rcases h.line.next_of_served ht (by simp) hsteps hnot with
    ⟨hnone, -⟩ | ⟨x, a, y, later, rest, hnext, hrest, hx⟩
  · exact .nil hnone
  · have hsound := h.of_run hnext.run
    cases onward_of_step? hx hnext.step hnext.own with
    | closed answer =>
      have hleaves : (x.closed id .stop monitor answer).tasks = moveUp rest := by
        cases answer with
        | ok =>
          exact Line.tasks_leave (s := { x.portClosed id monitor with phase := .idle }) hsound.line
            hrest .done
        | error e =>
          exact Line.tasks_leave (s := { x.note (.answered id (some e)) with phase := .idle })
            hsound.line hrest (.failed e)
      have hgone := hsound.line.gone hrest hleaves
      exact .last hnext.steps (hsound.silent_closing hrest answer)
        ((hsound.of_step hnext.step).line.nothing_after hgone hnext.rest hnext.notAsked.tail).1

/-- A request to stop that waits for the end of a reader. -/
theorem Sound.stopJoining (h : s.Sound) (ht : s.task? id = some ⟨id, .stop, .joining monitor⟩)
    (hsteps : s.stepAll? actions = some v) (hnot : NotAsked id actions) :
    s.EndsSilent id actions := by
  rcases h.line.next_of_served ht (by simp) hsteps hnot with
    ⟨hnone, -⟩ | ⟨x, a, y, later, rest, hnext, hrest, hx⟩
  · exact .nil hnone
  · have hsound := h.of_run hnext.run
    have hy := hsound.of_step hnext.step
    cases onward_of_step? hx hnext.step hnext.own with
    | close =>
      have hcall := hsound.line.call_eq hrest .stopSerial (.closing monitor)
      exact .step [.called id .stopSerial] hnext.steps (by rw [hcall]; rfl) (by simp)
        (hy.stopClosing (task?_of_first (by rw [hcall])) hnext.rest hnext.notAsked.tail)

/-- A request to stop gets the port: there is no monitor, or it is stopped. -/
theorem Sound.enterStop (h : s.Sound) (ht : s.tasks = ⟨id, .stop, .granted⟩ :: rest)
    (hu : u = s.enter id .stop) (hsound : u.Sound) (hsteps : u.stepAll? actions = some v)
    (hnot : NotAsked id actions) :
    (u.Silent ∧ u.ownSteps id actions = []) ∨
      (u.history = s.history ∧ u.EndsSilent id actions) := by
  cases hm : s.monitor with
  | none =>
    have henter : u = s.leave id .done := by simp only [hu, Session.enter, hm]
    rw [h.line.leave_eq ht] at henter
    have hgone := h.line.gone ht (congrArg Session.tasks henter)
    refine .inl ⟨?_, (hsound.line.nothing_after hgone hsteps hnot).1⟩
    rw [henter]
    exact ⟨hm, h.tended.readers_of_granted ht rfl hm⟩
  | some monitor =>
    have henter : u = s.beginTeardown id monitor := by simp only [hu, Session.enter, hm]
    rw [h.line.beginTeardown_eq ht] at henter
    refine .inr ⟨by rw [henter], ?_⟩
    exact hsound.stopJoining (task?_of_first (by rw [henter])) hsteps hnot

/-- A request to stop is over only when nobody reads. -/
theorem Sound.askStop (h : s.Sound) (hsteps : s.stepAll? (.ask id .stop :: later) = some v)
    (hnot : NotAsked id later) : s.EndsSilent id (.ask id .stop :: later) := by
  obtain ⟨u, hstep, hlater⟩ := exists_of_stepAll?_cons hsteps
  have hown : s.ownSteps id (.ask id .stop :: later) =
      ⟨s, .ask id .stop, u⟩ :: u.ownSteps id later := ownSteps_cons hstep rfl
  have hu := h.of_step hstep
  have hr : s.receive .stop = .ok .stop := rfl
  rcases h.line.asked hstep hr with ⟨hnil, henter⟩ | ⟨hlast, hqueued⟩
  · have hcome : (s.withFirst id .stop .stop).Sound := h.move (.come id hr hnil)
    rcases hcome.enterStop rfl henter hu hlater hnot with ⟨hsilent, hnone⟩ | ⟨hhistory, hends⟩
    · exact .last hown hsilent hnone
    · exact .step [.asked id .stop] hown hhistory (by simp) hends
  · refine .step [.asked id .stop] hown (by rw [hlast]; rfl) (by simp) ?_
    rcases hu.line.next_of_queued hqueued hlater hnot with
      ⟨hnone, -⟩ | ⟨x, a, y, more, rest, hnext, hrest, henter⟩
    · exact .nil hnone
    · have hsound := hu.of_run hnext.run
      rcases hsound.enterStop hrest henter (hsound.of_step hnext.step) hnext.rest
        hnext.notAsked.tail with ⟨hsilent, hnone⟩ | ⟨hhistory, hends⟩
      · exact .last hnext.steps hsilent hnone
      · exact .step [] hnext.steps hhistory (by simp) hends

end Stop

/-! ### What comes to the feed -/

/-- How lines have come to the feed of a session, and will come. What has come
since a monitor was started last is the beginning of what has arrived on the
stream that was opened last, and the feed keeps the last of it. A request to start
a monitor that fails leaves the feed alone. When a request to stop is over,
however it ends, the feed stays as it is until a monitor is started; and so it
does when the bridge has answered a task, which may be an upload, that it has
closed the port of a monitor, or could not. -/
structure Feeds (s : Session) : Prop where
  passed : linesSince s.history <+: streamLines (Ledger.of s.history).opened s.history
  recent : s.feed.recent = keepLast Feed.recentLimit (linesSince s.history)
  failing : ∀ {id port later v}, s.stepAll? (.ask id (.monitor port) :: later) = some v →
    NotAsked id later →
    (∃ e, .finished id (.failed e) ∈ s.deeds id (.ask id (.monitor port) :: later)) →
    ∀ t ∈ s.ownSteps id (.ask id (.monitor port) :: later), t.after.feed = t.before.feed
  stopped : ∀ {id later v}, s.stepAll? (.ask id .stop :: later) = some v → NotAsked id later →
    ∀ t ∈ s.ownSteps id (.ask id .stop :: later), ∀ outcome, .finished id outcome ∈ t.news →
      t.after.Quiet
  closed : ∀ {id answer u}, s.step? (.closed id answer) = some u → u.Quiet

/-- Whatever has happened and whatever the bridge answers: what comes to the feed
while a monitor runs is the beginning of its stream, in order, each line once, and
nothing of a stream comes to the feed when its monitor has been stopped. -/
theorem reached_feeds (run : Run start s) : s.Feeds := by
  have h := Sound.start.of_run run
  have hflowing := (run.keep (I := fun s => s.Sound ∧ s.Flowing)
    (fun _ _ _ h m => ⟨h.1.move m, h.2.move h.1.kept h.1.tended m⟩) line_start
    ⟨.start, .start⟩).2.2
  obtain ⟨stranded, own, haccounted⟩ := h.kept.accounted
  have hopened : (Ledger.of s.history).opened = s.epoch := by rw [haccounted.ledger]
  refine ⟨hopened ▸ hflowing.passed, hflowing.recent, ?_, ?_, ?_⟩
  · rintro id port later v hsteps hnot ⟨e, hfailed⟩
    rcases h.askMonitor hsteps hnot with hkept | hwell
    · exact hkept
    · exact absurd hfailed (hwell e)
  · intro id later v hsteps hnot t ht outcome hended
    have hrun : s.Run t.after := run_after (List.mem_of_mem_filter ht)
    exact (h.askStop hsteps hnot t ht outcome hended).quiet (h.line.of_run hrun)
  · intro id answer u hstep
    exact (h.silent_closed hstep).quiet (h.of_step hstep).line

/-- The first monitor is stopped while a line of it is unread, and the next one
sends twenty-two lines, of which one is unread. -/
theorem reached_feeds_of_restarted :
    ∃ s, Run start s ∧ (linesSince s.history).length = 21 ∧
      (streamLines 2 s.history).length = 22 ∧ s.feed.recent.head? = some "1" ∧ s.Feeds := by
  obtain ⟨s, run, hlength, harrived, hfirst⟩ :=
    exists_run ([.ask 0 (.monitor "COM3"), .opened 0 (.ok ()), .line 1 "old", .read 1,
        .line 1 "late", .ask 1 .stop, .read 1, .proceed 1, .closed 1 (.ok ()),
        .ask 2 (.monitor "COM3"), .opened 2 (.ok ())] ++
        (List.range 22).map (fun k => .line 2 (toString k)) ++ List.replicate 21 (.read 2))
      (fun s => (linesSince s.history).length = 21 ∧ (streamLines 2 s.history).length = 22 ∧
        s.feed.recent.head? = some "1")
      (by decide +kernel)
  exact ⟨s, run, hlength, harrived, hfirst, reached_feeds run⟩

end Session

end BlockSketch
