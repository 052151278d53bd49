import BlockSketch.Proofs.Device.Moves
import Mathlib.Data.List.Basic

/-!
What a session is doing, and why. While nobody is at the board, a session rests:
it is monitoring if it has a monitor, and idle if it has none. While the first
task in line is at the board, the session has no monitor, and it is doing what
that task is doing.
-/

namespace BlockSketch

def Task.phase (t : Task) : Phase :=
  match t.stage with
  | .listing => .listing
  | .uploading => .uploading
  | .joining _ | .closing _ => if t.job.isUpload then .uploading else .monitoring
  | .opening | .queued | .granted => .idle

namespace Session

/-- Nobody is at the board. -/
def Resting (s : Session) : Prop :=
  s.phase = if s.monitor.isSome then .monitoring else .idle

/-- The session does what its first task does. -/
structure Orderly (s : Session) : Prop where
  resting : (∀ t ∈ s.tasks.head?, t.stage = .granted) → s.Resting
  acting : ∀ t ∈ s.tasks.head?, t.stage ≠ .granted → s.monitor = none ∧ s.phase = t.phase

variable {s u : Session} {t : Task} {rest : List Task}

theorem Resting.monitor_eq_none (h : s.Resting) (hidle : s.phase = .idle) : s.monitor = none := by
  cases hm : s.monitor with
  | none => rfl
  | some monitor =>
    rw [Resting, hidle, hm] at h
    cases h

theorem resting_of_none (hphase : s.phase = .idle) (hm : s.monitor = none) : s.Resting := by
  rw [Resting, hphase, hm]
  rfl

namespace Orderly

theorem rests (h : s.Orderly) (ht : s.tasks = t :: rest) (hs : t.stage = .granted) :
    s.Resting := by
  refine h.resting ?_
  rw [ht]
  intro first hfirst
  cases hfirst
  exact hs

theorem acts (h : s.Orderly) (ht : s.tasks = t :: rest) (hs : t.stage ≠ .granted) :
    s.monitor = none ∧ s.phase = t.phase :=
  h.acting t (by rw [ht]; rfl) hs

theorem of_resting (h : s.Resting) (hgranted : ∀ t ∈ s.tasks.head?, t.stage = .granted) :
    s.Orderly :=
  ⟨fun _ => h, fun t ht hs => absurd (hgranted t ht) hs⟩

theorem of_acting (ht : s.tasks = t :: rest) (hs : t.stage ≠ .granted) (hm : s.monitor = none)
    (hphase : s.phase = t.phase) : s.Orderly := by
  refine ⟨fun hgranted => absurd (hgranted t (by rw [ht]; rfl)) hs, ?_⟩
  rw [ht]
  intro first hfirst _
  cases hfirst
  exact ⟨hm, hphase⟩

theorem departed {id : Nat} {outcome : Outcome} (h : s.Resting) :
    (s.departed rest id outcome).Orderly := by
  refine of_resting h ?_
  intro t ht
  cases rest with
  | nil => cases ht
  | cons next others =>
    cases ht
    rfl

/-- Once the first task has left the board, the session is idle. -/
theorem departed_idle {id : Nat} {outcome : Outcome} (h : s.Orderly) (ht : s.tasks = t :: rest)
    (hs : t.stage ≠ .granted) (hphase : u.phase = .idle) (hm : u.monitor = s.monitor) :
    (u.departed rest id outcome).Orderly :=
  departed (resting_of_none hphase (hm.trans (h.acts ht hs).1))

theorem start : start.Orderly :=
  of_resting rfl (by simp [Session.start])

theorem move (h : s.Orderly) (m : Move s u) : u.Orderly := by
  cases m with
  | refuse | lineArrived | hangUp | drop | pass | readerOver => exact ⟨h.resting, h.acting⟩
  | wait _ _ hne =>
    have hhead := head?_behind hne
    exact ⟨fun hgranted => h.resting (hhead _ ▸ hgranted), fun t ht => h.acting t (hhead _ ▸ ht)⟩
  | come _ _ hnil =>
    have hresting : s.Resting := h.resting (by simp [hnil])
    exact of_resting hresting (by simp [received])
  | listBusy ht | monitorBusy ht | nothingToStop ht => exact departed (h.rests ht rfl)
  | list ht hidle =>
    exact of_acting rfl (by simp) ((h.rests ht rfl).monitor_eq_none hidle) rfl
  | openPort ht hidle =>
    exact of_acting rfl (by simp) ((h.rests ht rfl).monitor_eq_none hidle) hidle
  | @teardown _ job monitor _ ht _ hm =>
    have hresting := h.rests ht rfl
    rw [Resting, hm] at hresting
    refine of_acting rfl (by simp) rfl ?_
    show (if job.isUpload then Phase.uploading else s.phase) = _
    rw [hresting]
    rfl
  | upload _ hm => exact of_acting rfl (by simp) hm rfl
  | close ht =>
    obtain ⟨hm, hphase⟩ := h.acts ht (by simp)
    exact of_acting rfl (by simp) hm hphase
  | listed _ ht | listFailed _ ht | stopped ht | stopFailed _ ht | teardownFailed _ ht
  | uploaded ht | uploadFailed _ ht => exact h.departed_idle ht (by simp) rfl rfl
  | opened => exact departed rfl
  | openFailed _ ht => exact h.departed_idle ht (by simp) (h.acts ht (by simp)).2 rfl
  | tornDown ht =>
    obtain ⟨hm, hphase⟩ := h.acts ht (by simp)
    exact of_acting rfl (by simp) hm hphase
  | monitorOver _ _ _ _ hm =>
    refine of_resting rfl ?_
    intro t ht
    by_cases hs : t.stage = .granted
    · exact hs
    · rw [(h.acting t ht hs).1] at hm
      cases hm

end Orderly

end Session

end BlockSketch
