import BlockSketch.Proofs.Device.Ledger

/-!
The port belongs to one at a time. When a session opens the port or uploads,
no stream is held except those that were left behind by a close that failed.
A task that stops a monitor takes it from the session before it closes the
port, and if closing fails, nobody has the monitor any more; the next task finds
none to stop and goes on with the port as it is.
-/

namespace BlockSketch

/-- A call that needs the port for itself. -/
def Call.usesPort : Call → Bool
  | .startSerial _ => true
  | .upload .. => true
  | _ => false

def Happening.usesPort : Happening → Bool
  | .called _ c => c.usesPort
  | _ => false

namespace Ledger

/-- Whenever the port was used, nothing was held but what had been left behind. -/
def Guarded : List Happening → Prop
  | [] => True
  | h :: before => (h.usesPort → (of before).held = (of before).stranded) ∧ Guarded before

theorem Guarded.of_suffix {history before : List Happening} {h : Happening} (hg : Guarded history)
    (hsuffix : h :: before <:+ history) (hh : h.usesPort) :
    (of before).held = (of before).stranded := by
  induction history with
  | nil => cases List.suffix_nil.mp hsuffix
  | cons x history ih =>
    rcases List.suffix_cons_iff.mp hsuffix with heq | hsuffix
    · cases heq
      exact hg.1 hh
    · exact ih hg.2 hsuffix

end Ledger

namespace Session

variable {s u : Session} {t : Task} {rest : List Task} {stranded own : List Nat}

/-! ### Who has what in hand -/

theorem awaited_departed (s : Session) (rest : List Task) (id : Nat) (outcome : Outcome) :
    (s.departed rest id outcome).awaited = [] := by
  cases rest <;> rfl

theorem watched_departed (s : Session) (rest : List Task) (id : Nat) (outcome : Outcome) :
    (s.departed rest id outcome).watched = s.monitor := by
  cases rest <;> cases hm : s.monitor <;> simp [watched, departed, moveUp, Stage.monitor?, hm]

theorem inHand_departed (s : Session) (rest : List Task) (id : Nat) (outcome : Outcome) :
    (s.departed rest id outcome).inHand = s.monitor.map Monitor.epoch := by
  rw [inHand_eq, watched_departed]

theorem awaited_of_tasks (ht : s.tasks = t :: rest) :
    s.awaited = t.call?.toList.map fun c => (t.id, c) := by
  simp [awaited, ht]

theorem watched_of_granted (ht : s.tasks = t :: rest) (hs : t.stage = .granted) :
    s.watched = s.monitor := by
  simp [watched, ht, hs, Stage.monitor?]

theorem inHand_of_granted (ht : s.tasks = t :: rest) (hs : t.stage = .granted) :
    s.inHand = s.monitor.map Monitor.epoch := by
  rw [inHand_eq, watched_of_granted ht hs]

theorem Orderly.watched_eq (h : s.Orderly) (ht : s.tasks = t :: rest) (hs : t.stage ≠ .granted) :
    s.watched = t.stage.monitor? := by
  simp [watched, ht, (h.acts ht hs).1]

theorem Orderly.inHand_eq (h : s.Orderly) (ht : s.tasks = t :: rest) (hs : t.stage ≠ .granted) :
    s.inHand = t.stage.monitor?.map Monitor.epoch := by
  rw [Session.inHand_eq, h.watched_eq ht hs]

namespace Accounted

/-- With nothing in hand, all that is held was left behind. -/
theorem streams_eq (h : s.Accounted stranded own) (hfree : s.inHand = none) :
    s.streams = stranded := by
  have hown : own = [] := by
    apply List.eq_nil_iff_forall_not_mem.mpr
    intro e he
    cases hfree.symm.trans (h.own e he)
  rw [h.streams, hown, List.append_nil]

theorem held_eq_stranded (h : s.Accounted stranded own) (hfree : s.inHand = none) :
    (Ledger.of s.history).held = (Ledger.of s.history).stranded := by
  rw [h.ledger]
  exact h.streams_eq hfree

theorem start : start.Accounted [] [] :=
  ⟨rfl, rfl, by simp⟩

/-- What happens beside the port. -/
theorem beside (h : s.Accounted stranded own)
    (hledger : Ledger.of u.history = Ledger.of s.history) (hawaited : u.awaited = s.awaited)
    (hepoch : u.epoch = s.epoch) (hstreams : u.streams = s.streams)
    (hhand : u.inHand = s.inHand) : u.Accounted stranded own where
  ledger := by rw [hledger, h.ledger, hawaited, hepoch, hstreams]
  streams := hstreams.trans h.streams
  own := hhand ▸ h.own

/-- A task calls the bridge. -/
theorem call (h : s.Accounted stranded own) {id : Nat} {c : Call} (hs : s.awaited = [])
    (hledger : Ledger.of u.history = (Ledger.of s.history).after (.called id c))
    (hawaited : u.awaited = [(id, c)]) (hepoch : u.epoch = s.epoch)
    (hstreams : u.streams = s.streams) (hhand : u.inHand = s.inHand) :
    u.Accounted stranded own where
  ledger := by rw [hledger, h.ledger, hs, hawaited, hepoch, hstreams, Ledger.after]
  streams := hstreams.trans h.streams
  own := hhand ▸ h.own

theorem ledger_answered (h : s.Accounted stranded own) {id : Nat} {c : Call}
    (hs : s.awaited = [(id, c)]) (error : Option DeviceError) :
    (Ledger.of s.history).after (.answered id error) =
      Ledger.settle ⟨[], s.epoch, s.streams, stranded⟩ c error := by
  have hawaited : (Ledger.of s.history).awaited = [(id, c)] := by rw [h.ledger, hs]
  rw [Ledger.after_answered hawaited, h.ledger]
  cases c <;> cases error <;> rfl

/-- A task that had nothing in hand gets an answer that leaves the streams as
they are. -/
theorem answer (h : s.Accounted stranded own) {id : Nat} {c : Call} {error : Option DeviceError}
    (hs : s.awaited = [(id, c)]) (hfree : s.inHand = none)
    (hsettle : ∀ l : Ledger, l.settle c error = l)
    (hledger : Ledger.of u.history = (Ledger.of s.history).after (.answered id error))
    (hawaited : u.awaited = []) (hepoch : u.epoch = s.epoch) (hstreams : u.streams = s.streams) :
    u.Accounted stranded [] where
  ledger := by rw [hledger, h.ledger_answered hs, hsettle, hawaited, hepoch, hstreams]
  streams := by rw [hstreams, h.streams_eq hfree, List.append_nil]
  own := by simp

/-- The bridge has closed the port: nothing is held any more. -/
theorem ledger_closed (h : s.Accounted stranded own) {id : Nat}
    (hs : s.awaited = [(id, .stopSerial)]) :
    (Ledger.of s.history).after (.answered id none) = ⟨[], s.epoch, [], []⟩ :=
  h.ledger_answered hs none

/-- The bridge could not close the port. -/
theorem strand (h : s.Accounted stranded own) {id : Nat} {e : DeviceError}
    (hs : s.awaited = [(id, .stopSerial)])
    (hledger : Ledger.of u.history = (Ledger.of s.history).after (.answered id (some e)))
    (hawaited : u.awaited = []) (hepoch : u.epoch = s.epoch) (hstreams : u.streams = s.streams) :
    u.Accounted s.streams [] where
  ledger := by
    rw [hledger, h.ledger_answered hs, hawaited, hepoch, hstreams]
    rfl
  streams := by rw [hstreams, List.append_nil]
  own := by simp

/-- A port has been opened: its stream is what the session has in hand. -/
theorem opened (h : s.Accounted stranded own) {id : Nat} {port : String}
    (hs : s.awaited = [(id, .startSerial port)]) (hfree : s.inHand = none) (rest : List Task) :
    ((s.portOpened id port).departed rest id .done).Accounted stranded [s.epoch + 1] := by
  have hstreams := h.streams_eq hfree
  have hledger := h.ledger_answered hs none
  refine ⟨?_, ?_, ?_⟩
  · rw [awaited_departed]
    exact hledger
  · show s.streams ++ [s.epoch + 1] = stranded ++ [s.epoch + 1]
    rw [hstreams]
  · intro e he
    rw [List.mem_singleton.mp he, inHand_departed]
    rfl

/-- The board ends a stream: it is held no longer, whoever had it. -/
theorem hangUp (h : s.Accounted stranded own) (epoch : Nat) :
    (s.streamEnds epoch).Accounted (stranded.filter fun e => e ≠ epoch)
      (own.filter fun e => e ≠ epoch) := by
  refine ⟨?_, ?_, fun e he => h.own e (List.mem_of_mem_filter he)⟩
  · show (Ledger.of s.history).after (.streamEnded epoch) = _
    rw [h.ledger]
    rfl
  · show s.streams.filter (fun e => e ≠ epoch) = _
    rw [h.streams, List.filter_append]

/-- With what is in hand not held, nothing is the session's own. -/
theorem own_eq_nil (h : s.Accounted stranded own) {epoch : Nat} (hhand : s.inHand = some epoch)
    (hended : epoch ∉ s.streams) : own = [] := by
  apply List.eq_nil_iff_forall_not_mem.mpr
  intro e he
  obtain rfl : epoch = e := Option.some.inj (hhand.symm.trans (h.own e he))
  apply hended
  rw [h.streams]
  exact List.mem_append_right _ he

theorem move (ho : s.Orderly) (ha : s.Attended) (h : s.Accounted stranded own) (m : Move s u) :
    ∃ stranded own, u.Accounted stranded own := by
  cases m with
  | refuse | lineArrived | drop | pass | readerOver => exact ⟨_, _, h.beside rfl rfl rfl rfl rfl⟩
  | wait _ _ hne =>
    refine ⟨_, _, h.beside rfl ?_ rfl rfl ?_⟩
    · simp only [awaited, received, head?_behind hne]
    · simp only [inHand, received, head?_behind hne]
  | come _ _ hnil =>
    refine ⟨_, _, h.beside rfl ?_ rfl rfl ?_⟩
    · simp [awaited, received, hnil, Task.call?]
    · simp [inHand, received, hnil, Stage.monitor?]
  | listBusy ht | monitorBusy ht | nothingToStop ht =>
    refine ⟨_, _, h.beside rfl ?_ rfl rfl ?_⟩
    · rw [awaited_departed, awaited_of_tasks ht]
      rfl
    · rw [inHand_departed, inHand_of_granted ht rfl]
  | list ht | openPort ht | upload ht =>
    refine ⟨_, _, h.call ?_ rfl rfl rfl rfl ?_⟩
    · rw [awaited_of_tasks ht]
      rfl
    · simp [inHand, ht, Stage.monitor?]
  | teardown ht _ hm =>
    refine ⟨_, _, h.beside rfl ?_ rfl rfl ?_⟩
    · rw [awaited_of_tasks ht]
      rfl
    · rw [inHand_of_granted ht rfl, hm]
      rfl
  | close ht =>
    refine ⟨_, _, h.call ?_ rfl rfl rfl rfl ?_⟩
    · rw [awaited_of_tasks ht]
      rfl
    · simp [inHand, ht, Stage.monitor?]
  | listed _ ht | listFailed _ ht | openFailed _ ht | uploaded ht | uploadFailed _ ht =>
    refine ⟨_, _, h.answer (awaited_of_tasks ht) ?_ (fun _ => rfl) rfl ?_ rfl rfl⟩
    · rw [ho.inHand_eq ht (by simp)]
      rfl
    · exact awaited_departed _ _ _ _
  | opened ht =>
    exact ⟨_, _, h.opened (awaited_of_tasks ht) (ho.inHand_eq ht (by simp)) _⟩
  | stopped ht =>
    have hledger := h.ledger_closed (awaited_of_tasks ht)
    refine ⟨[], [], ?_, rfl, by simp⟩
    rw [awaited_departed]
    exact hledger
  | @tornDown id source port board _ _ ht =>
    have hledger := h.ledger_closed (awaited_of_tasks ht)
    refine ⟨[], [], ?_, rfl, by simp⟩
    exact congrArg (fun l : Ledger => l.after (.called id (.upload source board port))) hledger
  | stopFailed _ ht | teardownFailed _ ht =>
    exact ⟨_, _, h.strand (awaited_of_tasks ht) rfl (awaited_departed _ _ _ _) rfl rfl⟩
  | hangUp => exact ⟨_, _, h.hangUp _⟩
  | @monitorOver r hr _ _ hended hm =>
    have hhand : s.inHand = some r.epoch := by
      cases hmonitor : s.monitor with
      | none =>
        rw [hmonitor] at hm
        cases hm
      | some monitor =>
        rw [hmonitor] at hm
        simpa [inHand, hmonitor] using hm
    obtain rfl := h.own_eq_nil hhand (ha.ended r hr hended)
    exact ⟨stranded, [], h.ledger, h.streams, by simp⟩

end Accounted

/-! ### Along runs -/

/-- A move uses the port only when nothing is held but what was left behind. -/
theorem guarded_move (ho : s.Orderly) (h : s.Accounted stranded own)
    (hg : Ledger.Guarded s.history) (m : Move s u) : Ledger.Guarded u.history := by
  cases m with
  | openPort ht hidle =>
    have hm := (ho.rests ht rfl).monitor_eq_none hidle
    have hfree : s.inHand = none := by rw [inHand_of_granted ht rfl, hm]; rfl
    exact ⟨fun _ => h.held_eq_stranded hfree, hg⟩
  | upload ht hm =>
    have hfree : s.inHand = none := by rw [inHand_of_granted ht rfl, hm]; rfl
    exact ⟨fun _ => h.held_eq_stranded hfree, by simp [Happening.usesPort], hg⟩
  | tornDown ht =>
    have hledger := h.ledger_closed (awaited_of_tasks ht)
    refine ⟨fun _ => ?_, by simp [Happening.usesPort], by simp [Happening.usesPort],
      by simp [Happening.usesPort], hg⟩
    exact (congrArg Ledger.held hledger).trans (congrArg Ledger.stranded hledger).symm
  | teardown | drop | readerOver => exact hg
  | refuse | wait | come | listBusy | list | monitorBusy | nothingToStop | close | listed
  | listFailed | opened | openFailed | stopped | stopFailed | teardownFailed | uploaded
  | uploadFailed | lineArrived | hangUp | pass | monitorOver =>
    simpa [Ledger.Guarded, Happening.usesPort, Call.usesPort, received, departed, portOpened,
      lineArrives, streamEnds, modifyReader, dropReader] using hg

/-- What every move keeps. -/
structure Kept (s : Session) : Prop where
  orderly : s.Orderly
  attended : s.Attended
  accounted : ∃ stranded own, s.Accounted stranded own

namespace Kept

theorem start : start.Kept :=
  ⟨.start, .start, [], [], .start⟩

theorem move (h : s.Kept) (m : Move s u) : u.Kept := by
  obtain ⟨stranded, own, ha⟩ := h.accounted
  exact ⟨h.orderly.move m, h.attended.move m, ha.move h.orderly h.attended m⟩

end Kept

/-- What is shown of a run may start from all that is kept along it. -/
theorem Run.with_kept {I : Session → Prop} (hstart : I start)
    (hmove : ∀ s u, s.Line → s.Kept → I s → Move s u → I u) (run : Run start s) :
    s.Line ∧ s.Kept ∧ I s := by
  refine run.keep (I := fun s => s.Kept ∧ I s) ?_ line_start ⟨.start, hstart⟩
  rintro s u hline ⟨hkept, h⟩ m
  exact ⟨hkept.move m, hmove s u hline hkept h m⟩

theorem guarded_of_run (run : Run start s) : Ledger.Guarded s.history := by
  refine (run.with_kept (I := fun s => Ledger.Guarded s.history) trivial ?_).2.2
  rintro s u - hkept hg m
  obtain ⟨stranded, own, h⟩ := hkept.accounted
  exact guarded_move hkept.orderly h hg m

/-- Whenever a session opens the port or uploads, every stream that is still
held was left behind by a close that failed. -/
theorem reached_held_eq_stranded {s : Session} (run : Run start s) {task : Nat} {c : Call}
    {before : List Happening} (hcall : .called task c :: before <:+ s.history)
    (hc : c.usesPort) : (Ledger.of before).held = (Ledger.of before).stranded :=
  (guarded_of_run run).of_suffix hcall hc

def closing : List Action :=
  [.ask 0 (.monitor "COM3"), .opened 0 (.ok ()), .ask 1 (.upload "sketch" "uno" "COM3"), .read 1,
    .proceed 1]

/-- The upload follows when the port has been closed, and nothing is held. -/
theorem reached_held_eq_stranded_of_closed :
    ∃ s before, Run start s ∧
      .called 1 (.upload "sketch" .uno "COM3") :: before = s.history ∧
      (Ledger.of before).opened = 1 ∧ (Ledger.of before).stranded = [] ∧
      (Ledger.of before).held = (Ledger.of before).stranded := by
  obtain ⟨s, run, hcall, hopened, hstranded⟩ :=
    exists_run (closing ++ [.closed 1 (.ok ())])
      (fun s => .called 1 (.upload "sketch" .uno "COM3") :: s.history.tail = s.history ∧
        (Ledger.of s.history.tail).opened = 1 ∧ (Ledger.of s.history.tail).stranded = [])
      (by decide +kernel)
  have hsuffix : .called 1 (.upload "sketch" .uno "COM3") :: s.history.tail <:+ s.history :=
    hcall ▸ List.suffix_refl s.history
  exact ⟨s, _, run, hcall, hopened, hstranded, reached_held_eq_stranded run hsuffix rfl⟩

/-- The bridge cannot close the port; the next upload finds no monitor to stop,
and goes on while the stream is held. -/
theorem upload_while_held :
    ¬ ∀ s, Run start s → ∀ task c before, .called task c :: before <:+ s.history →
      c.usesPort → (Ledger.of before).held = [] := by
  intro hfree
  obtain ⟨s, run, hcall, hheld⟩ :=
    exists_run (closing ++ [.closed 1 (.error (.monitor "COM3" "stuck")),
        .ask 2 (.upload "sketch" "uno" "COM3")])
      (fun s => .called 2 (.upload "sketch" .uno "COM3") :: s.history.tail = s.history ∧
        (Ledger.of s.history.tail).held = [1])
      (by decide +kernel)
  have hsuffix : .called 2 (.upload "sketch" .uno "COM3") :: s.history.tail <:+ s.history :=
    hcall ▸ List.suffix_refl s.history
  cases hheld.symm.trans (hfree s run _ _ _ hsuffix rfl)

end Session

end BlockSketch
