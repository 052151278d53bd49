import BlockSketch.Proofs.Device.Phases
import Mathlib.Data.List.Basic

/-!
The ledger of the port. It is kept by someone who sees what has happened in a
session, and not the session itself: which calls have not been answered, which
streams were opened and are still held, and which of these were left behind by
a close that failed. A stream is held from the moment the port is opened until
either the bridge closes the port or the board ends the stream.

The ledger always agrees with the session, and every stream that is held is
either in the hand of somebody, who will close it before anything else is done
with the port, or was left behind.
-/

namespace BlockSketch

/-- What someone knows who sees what has happened: the calls that have not been
answered, with the tasks that wait, how many streams have been opened, and those
that are held by the order of opening, among them those whose close was tried. -/
structure Ledger where
  awaited : List (Nat × Call)
  opened : Nat
  held : List Nat
  stranded : List Nat
deriving DecidableEq, Repr, Inhabited

namespace Ledger

def settle (l : Ledger) : Call → Option DeviceError → Ledger
  | .startSerial _, none => { l with opened := l.opened + 1, held := l.held ++ [l.opened + 1] }
  | .stopSerial, none => { l with held := [], stranded := [] }
  | .stopSerial, some _ => { l with stranded := l.held }
  | _, _ => l

def after (l : Ledger) : Happening → Ledger
  | .called task c => { l with awaited := (task, c) :: l.awaited }
  | .answered task error =>
    match l.awaited.lookup task with
    | some c => { l.settle c error with awaited := l.awaited.filter fun a => a.1 ≠ task }
    | none => l
  | .streamEnded epoch =>
    { l with
      held := l.held.filter fun e => e ≠ epoch
      stranded := l.stranded.filter fun e => e ≠ epoch }
  | _ => l

/-- The ledger of what has happened, the last first. -/
def of : List Happening → Ledger
  | [] => ⟨[], 0, [], []⟩
  | h :: before => (of before).after h

theorem after_answered {l : Ledger} {task : Nat} {c : Call} (h : l.awaited = [(task, c)])
    (error : Option DeviceError) :
    l.after (.answered task error) = { l.settle c error with awaited := [] } := by
  simp [after, h]

end Ledger

def Task.call? (t : Task) : Option Call :=
  match t.stage, t.job with
  | .listing, _ => some .listPorts
  | .opening, .monitor port => some (.startSerial port)
  | .closing _, _ => some .stopSerial
  | .uploading, .upload source board port => some (.upload source board port)
  | _, _ => none

def Stage.monitor? : Stage → Option Monitor
  | .joining monitor => some monitor
  | .closing monitor => some monitor
  | _ => none

namespace Session

def awaited (s : Session) : List (Nat × Call) :=
  s.tasks.head?.toList.flatMap fun t => t.call?.toList.map fun c => (t.id, c)

/-- The monitor of a session, or the one that its first task is stopping. -/
def watched (s : Session) : Option Monitor :=
  s.monitor.or (s.tasks.head?.bind fun t => t.stage.monitor?)

/-- The stream that somebody will close: that of the monitor, or of the monitor
that the first task is stopping. -/
def inHand (s : Session) : Option Nat :=
  (s.monitor.or (s.tasks.head?.bind fun t => t.stage.monitor?)).map Monitor.epoch

theorem inHand_eq (s : Session) : s.inHand = s.watched.map Monitor.epoch := rfl

/-- The ledger agrees with the session, and what is held and was not left behind
is in hand. -/
structure Accounted (s : Session) (stranded own : List Nat) : Prop where
  ledger : Ledger.of s.history = ⟨s.awaited, s.epoch, s.streams, stranded⟩
  streams : s.streams = stranded ++ own
  own : ∀ e ∈ own, s.inHand = some e

/-! ### Readers -/

/-- A reader belongs to a stream that was opened, and if it has come to the end
of it, the stream is not open any more. -/
structure ReadersOf (readers : List Reader) (streams : List Nat) (epoch : Nat) : Prop where
  known : ∀ r ∈ readers, r.epoch ≤ epoch
  ended : ∀ r ∈ readers, r.ended → r.epoch ∉ streams

def Attended (s : Session) : Prop :=
  ReadersOf s.readers s.streams s.epoch

variable {s u : Session}

namespace ReadersOf

variable {readers : List Reader} {streams : List Nat} {epoch : Nat}

theorem filter (h : ReadersOf readers streams epoch) (p : Reader → Bool) :
    ReadersOf (readers.filter p) streams epoch where
  known r hr := h.known r (List.mem_of_mem_filter hr)
  ended r hr := h.ended r (List.mem_of_mem_filter hr)

/-- A change to a reader that does not concern its stream. -/
theorem map (h : ReadersOf readers streams epoch) {f : Reader → Reader}
    (hf : ∀ r, (f r).epoch = r.epoch ∧ (f r).ended = r.ended) :
    ReadersOf (readers.map f) streams epoch where
  known r hr := by
    obtain ⟨q, hq, rfl⟩ := List.mem_map.mp hr
    rw [(hf q).1]
    exact h.known q hq
  ended r hr hended := by
    obtain ⟨q, hq, rfl⟩ := List.mem_map.mp hr
    rw [(hf q).2] at hended
    rw [(hf q).1]
    exact h.ended q hq hended

theorem closed (h : ReadersOf readers streams epoch) : ReadersOf readers [] epoch where
  known := h.known
  ended _ _ _ := List.not_mem_nil

theorem opened (h : ReadersOf readers streams epoch) (port : String) :
    ReadersOf (readers ++ [⟨epoch + 1, port, [], false, false⟩]) (streams ++ [epoch + 1])
      (epoch + 1) where
  known r hr := by
    rcases List.mem_append.mp hr with hr | hr
    · have hle := h.known r hr
      omega
    · exact Nat.le_of_eq (congrArg Reader.epoch (List.mem_singleton.mp hr))
  ended r hr hended := by
    rcases List.mem_append.mp hr with hr | hr
    · have hle := h.known r hr
      have hnot := h.ended r hr hended
      rw [List.mem_append, List.mem_singleton]
      rintro (hmem | heq)
      · exact hnot hmem
      · omega
    · rw [List.mem_singleton.mp hr] at hended
      cases hended

theorem hungUp (h : ReadersOf readers streams epoch) (e : Nat) :
    ReadersOf (readers.map fun r => if r.epoch = e then { r with ended := true } else r)
      (streams.filter fun x => x ≠ e) epoch where
  known r hr := by
    obtain ⟨q, hq, rfl⟩ := List.mem_map.mp hr
    have hle := h.known q hq
    split <;> exact hle
  ended r hr hended := by
    obtain ⟨q, hq, rfl⟩ := List.mem_map.mp hr
    by_cases hqe : q.epoch = e
    · simp [hqe]
    · rw [if_neg hqe] at hended ⊢
      have hnot := h.ended q hq hended
      exact fun hmem => hnot (List.mem_of_mem_filter hmem)

end ReadersOf

namespace Attended

theorem start : start.Attended :=
  ⟨by simp [Session.start], by simp [Session.start]⟩

theorem move (h : s.Attended) (m : Move s u) : u.Attended := by
  cases m with
  | teardown | lineArrived | pass =>
    refine ReadersOf.map h ?_
    intro r
    split <;> exact ⟨rfl, rfl⟩
  | opened => exact ReadersOf.opened h _
  | stopped | tornDown => exact ReadersOf.closed h
  | hangUp => exact ReadersOf.hungUp h _
  | drop | readerOver | monitorOver => exact ReadersOf.filter h _
  | refuse | wait | come | listBusy | list | monitorBusy | openPort | nothingToStop | upload
  | close | listed | listFailed | openFailed | stopFailed | teardownFailed | uploaded
  | uploadFailed => exact h

end Attended

end Session

end BlockSketch
