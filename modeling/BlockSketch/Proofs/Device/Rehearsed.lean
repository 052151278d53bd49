import BlockSketch.Device.Rehearsal
import BlockSketch.Proofs.Device.Moves

/-!
What rehearsals show. Whatever is done in a rehearsal, its session takes steps
that sessions can take, one after the other, so that it is tried out on runs.
Only those who listen come and go without a step of the session. They see what
it does and do not change it: without them, the same is a run from the start.
-/

namespace BlockSketch

namespace Session

variable {s u : Session} {a : Action} {id : Nat}

/-! ### Who listens -/

/-- The same session with nobody listening. -/
def unheard (s : Session) : Session :=
  { s with feed := { s.feed with listeners := [] } }

theorem unheard_release (s : Session) : s.release.unheard = s.unheard.release := by
  unfold release
  split <;> simp_all [unheard, setStage]

theorem unheard_leave (s : Session) (id : Nat) (outcome : Outcome) :
    (s.leave id outcome).unheard = s.unheard.leave id outcome := by
  unfold leave
  rw [← unheard_release]
  rfl

theorem unheard_leaveIdle (s : Session) (id : Nat) (outcome : Outcome) :
    (s.leaveIdle id outcome).unheard = s.unheard.leaveIdle id outcome :=
  unheard_leave { s with phase := .idle } id outcome

theorem unheard_leaveUpload (s : Session) (id : Nat) (outcome : Outcome) :
    (s.leaveUpload id outcome).unheard = s.unheard.leaveUpload id outcome := by
  unfold leaveUpload
  rw [← unheard_leaveIdle]
  rfl

theorem unheard_enter (s : Session) (id : Nat) (job : Job) :
    (s.enter id job).unheard = s.unheard.enter id job := by
  have hphase : s.unheard.phase = s.phase := rfl
  have hmonitor : s.unheard.monitor = s.monitor := rfl
  cases job with
  | list =>
    simp only [enter, hphase]
    split
    next => rfl
    next => exact unheard_leave ..
  | monitor port =>
    simp only [enter, hphase]
    split
    next => rfl
    next => exact unheard_leave ..
  | stop =>
    simp only [enter, hmonitor]
    cases s.monitor with
    | some monitor => rfl
    | none => exact unheard_leave ..
  | upload source board port =>
    simp only [enter, hmonitor]
    cases s.monitor <;> rfl

theorem unheard_askForPort (s : Session) (id : Nat) (job : Job) :
    (s.askForPort id job).unheard = s.unheard.askForPort id job := by
  have hholder : s.unheard.holder = s.holder := rfl
  simp only [askForPort, hholder]
  cases s.holder with
  | none => exact unheard_enter ..
  | some _ => rfl

theorem unheard_ask (s : Session) (id : Nat) (request : Request) :
    (s.ask id request).unheard = s.unheard.ask id request := by
  have huploading : (s.unheard.note (.asked id request)).uploading =
      (s.note (.asked id request)).uploading := rfl
  cases request with
  | list | monitor =>
    simp only [ask, huploading]
    split
    next => rfl
    next => exact unheard_askForPort ..
  | stop => exact unheard_askForPort ..
  | upload source boardId port =>
    simp only [ask, huploading]
    cases Board.resolve boardId with
    | error e => rfl
    | ok board =>
      simp only
      split
      next => rfl
      next => exact unheard_askForPort ..

theorem unheard_listed (s : Session) (id : Nat) (answer : Except DeviceError (List String)) :
    (s.listed id answer).unheard = s.unheard.listed id answer := by
  cases answer <;> exact unheard_leaveIdle ..

theorem unheard_opened (s : Session) (id : Nat) (port : String) (answer : Except DeviceError Unit) :
    (s.opened id port answer).unheard = s.unheard.opened id port answer := by
  cases answer <;> exact unheard_leave ..

theorem unheard_closed (s : Session) (id : Nat) (job : Job) (monitor : Monitor)
    (answer : Except DeviceError Unit) :
    (s.closed id job monitor answer).unheard = s.unheard.closed id job monitor answer := by
  cases answer <;> cases job <;>
    first | rfl | exact unheard_leaveIdle .. | exact unheard_leaveUpload ..

theorem unheard_uploadEnded (s : Session) (id : Nat) (port : String)
    (answer : Except DeviceError Unit) :
    (s.uploadEnded id port answer).unheard = s.unheard.uploadEnded id port answer := by
  cases answer <;> exact unheard_leaveUpload ..

theorem unheard_proceed? (s : Session) (t : Task) :
    s.unheard.proceed? t = (s.proceed? t).map unheard := by
  obtain ⟨id, job, stage⟩ := t
  cases stage with
  | granted => exact congrArg some (unheard_enter ..).symm
  | joining monitor =>
    show (if (s.reader? monitor.epoch).isSome then none else some _) = _
    simp only [proceed?]
    split <;> rfl
  | queued | listing | opening | closing | uploading => rfl

theorem unheard_streamOver (s : Session) (r : Reader) :
    (s.streamOver r).unheard = s.unheard.streamOver r := by
  have hmonitor : (s.unheard.dropReader r.epoch).monitor = (s.dropReader r.epoch).monitor := rfl
  simp only [streamOver, hmonitor]
  split <;> rfl

theorem unheard_read? (s : Session) (r : Reader) :
    s.unheard.read? r = (s.read? r).map unheard := by
  unfold read?
  split
  next => rfl
  next =>
    split
    next => rfl
    next =>
      split
      next => exact congrArg some (unheard_streamOver ..).symm
      next => rfl

/-- Who listens does not change what can happen, nor what becomes of the session. -/
theorem unheard_step? (s : Session) (a : Action) :
    s.unheard.step? a = (s.step? a).map unheard := by
  have htask : ∀ id, s.unheard.task? id = s.task? id := fun _ => rfl
  have hreader : ∀ epoch, s.unheard.reader? epoch = s.reader? epoch := fun _ => rfl
  have hstreams : s.unheard.streams = s.streams := rfl
  cases a with
  | ask id request =>
    simp only [step?, htask, ← unheard_ask]
    split <;> rfl
  | proceed id =>
    simp only [step?, htask]
    cases s.task? id with
    | none => rfl
    | some t => exact unheard_proceed? s t
  | listed id | opened id | closed id | uploaded id =>
    simp only [step?, htask, ← unheard_listed, ← unheard_opened, ← unheard_closed,
      ← unheard_uploadEnded]
    cases s.task? id with
    | none => rfl
    | some t =>
      simp only [Option.bind_eq_bind, Option.bind_some]
      split <;> rfl
  | line epoch line =>
    simp only [step?, hstreams]
    split <;> rfl
  | hangUp epoch =>
    simp only [step?, hstreams]
    split <;> rfl
  | read epoch =>
    simp only [step?, hreader]
    cases s.reader? epoch with
    | none => rfl
    | some r => exact unheard_read? s r

/-- A run is one with nobody listening, too. -/
theorem Run.unheard (run : Run s u) : Run s.unheard u.unheard := by
  induction run with
  | refl => exact .refl _
  | @step t u a _ hstep ih =>
    have hunheard : t.unheard.step? a = some u.unheard := by rw [unheard_step?, hstep]; rfl
    exact .step ih hunheard

end Session

namespace Rehearsal

open Session

variable {r : Rehearsal}

/-! ### Steps of a rehearsal -/

theorem session_noticeCalls (r : Rehearsal) (before : Nat) :
    (r.noticeCalls before).session = r.session := by
  unfold noticeCalls
  refine List.foldlRecOn (motive := fun r' : Rehearsal => r'.session = r.session) _ _ rfl ?_
  intro r' hsame h _
  cases h <;> exact hsame

/-- What happens in a rehearsal is a step of its session, or nothing if there is none. -/
theorem session_happen (r : Rehearsal) (a : Action) :
    (r.happen a).session = (r.session.step? a).getD r.session := by
  unfold happen
  cases r.session.step? a with
  | none => rfl
  | some s => exact session_noticeCalls ..

theorem run_happen (r : Rehearsal) (a : Action) : Run r.session (r.happen a).session := by
  rw [session_happen]
  cases hstep : r.session.step? a with
  | none => exact .refl _
  | some s => exact .step (.refl _) hstep

theorem run_happenings {α : Type} (action : α → Action) (items : List α) (r : Rehearsal) :
    Run r.session (items.foldl (fun r x => r.happen (action x)) r).session := by
  induction items generalizing r with
  | nil => exact .refl _
  | cons x items ih => exact (run_happen r (action x)).trans (ih _)

theorem run_deliver (r : Rehearsal) (task : Nat) (cue : Cue) :
    Run r.session (r.deliver task cue).session := by
  refine Run.trans ?_ (run_happen _ (cue.action task))
  split
  next => exact run_happenings Action.hangUp r.session.streams { r with call := none }
  next => exact .refl _

theorem run_advance? {r' : Rehearsal} (h : r.advance? = some r') : Run r.session r'.session := by
  unfold advance? at h
  split at h
  next a _ =>
    cases h
    exact run_happen r a
  next =>
    split at h
    next task cue _ =>
      split at h
      next => cases h
      next =>
        cases h
        exact run_deliver r task cue
    next => cases h

theorem run_settle (steps : Nat) (r : Rehearsal) : Run r.session (settle steps r).session := by
  induction steps generalizing r with
  | zero => exact .refl _
  | succ steps ih =>
    unfold settle
    cases hadvance : r.advance? with
    | none => exact .refl _
    | some r' => exact (run_advance? hadvance).trans (ih r')

theorem run_settled (r : Rehearsal) : Run r.session r.settled.session :=
  run_settle ..

/-! ### Whole rehearsals -/

theorem run_ask (r : Rehearsal) (id : Nat) (request : Request) :
    Run r.session (r.ask id request).session :=
  (run_happen r _).trans (run_settled _)

theorem run_release (r : Rehearsal) : Run r.session r.release.session := by
  unfold release
  split
  next task cue _ => exact run_settled { r with call := some (task, { cue with hold := false }) }
  next => exact .refl _

theorem run_sendLines (r : Rehearsal) (lines : List String) :
    Run r.session (r.sendLines lines).session := by
  unfold sendLines
  split
  next => exact .refl _
  next epoch _ => exact (run_happenings (Action.line epoch) lines r).trans (run_settled _)

theorem run_hangUp (r : Rehearsal) : Run r.session r.hangUp.session := by
  unfold hangUp
  split
  next => exact .refl _
  next epoch _ => exact (run_happen r _).trans (run_settled _)

/-- A rehearsal that has come about. Listeners may do with the feed whatever leaves
its window as it is. -/
inductive Rehearsed : Rehearsal → Prop
  | start : Rehearsed .start
  | ask {r : Rehearsal} (id : Nat) (request : Request) : Rehearsed r → Rehearsed (r.ask id request)
  | addCue {r : Rehearsal} (cue : Cue) : Rehearsed r → Rehearsed (r.addCue cue)
  | release {r : Rehearsal} : Rehearsed r → Rehearsed r.release
  | sendLines {r : Rehearsal} (lines : List String) : Rehearsed r → Rehearsed (r.sendLines lines)
  | hangUp {r : Rehearsal} : Rehearsed r → Rehearsed r.hangUp
  | look {r : Rehearsal} : Rehearsed r → Rehearsed r.look
  | listen {r : Rehearsal} {f : Feed → Feed} : Rehearsed r →
      (f r.session.feed).recent = r.session.feed.recent → Rehearsed (r.onFeed f)

/-- All that is tried out in a rehearsal is a run from the start, but for those who
listen. -/
theorem Rehearsed.run (h : Rehearsed r) : Run .start r.session.unheard := by
  induction h with
  | start => exact .refl _
  | ask id request _ ih => exact ih.trans (run_ask _ id request).unheard
  | addCue | look => assumption
  | release _ ih => exact ih.trans (run_release _).unheard
  | sendLines lines _ ih => exact ih.trans (run_sendLines _ lines).unheard
  | hangUp _ ih => exact ih.trans (run_hangUp _).unheard
  | @listen r f _ hrecent ih =>
    have hsame : (r.onFeed f).session.unheard = r.session.unheard := by
      simp only [onFeed, unheard, hrecent]
    rw [hsame]
    exact ih

example :
    let r := (Rehearsal.start.ask 0 (.monitor "COM3")).sendLines ["ready"]
    r.session.phase = .monitoring ∧ r.session.feed.recent = ["ready"] := by decide +kernel

end Rehearsal

end BlockSketch
