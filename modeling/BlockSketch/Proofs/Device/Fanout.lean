import BlockSketch.Device.Feed
import Mathlib.Data.List.DropRight
import Mathlib.Data.List.Infix

/-!
What the listeners of a feed hear. Someone who joins is handed the last lines
since the feed was cleared, and from there on every line as it comes: of all
that is published, what was published before is in the window that is handed
over or older than it, and what is published later is heard or still waits to be
heard. Nothing is heard twice, and nothing is lost as long as the listener does
not fall too far behind.

The feed itself only has a window and, for each listener, what waits for it.
What is said about it here is said about what has been done with it.
-/

namespace BlockSketch

namespace Feed

inductive Step
  | publish (line : String)
  | clear
  | attach
  | receive (listener : Nat)
deriving DecidableEq, Repr

def after (feed : Feed) : Step → Feed
  | .publish line => feed.publish line
  | .clear => feed.clear
  | .attach => feed.attach.2
  | .receive n => (feed.receive n).2

def afterAll (feed : Feed) (steps : List Step) : Feed :=
  steps.foldl after feed

def Step.published? : Step → Option String
  | .publish line => some line
  | _ => none

def published (steps : List Step) : List String :=
  steps.filterMap Step.published?

/-- The lines that have been published since the feed was cleared last. -/
def sinceClear (steps : List Step) : List String :=
  published (steps.rtakeWhile (· ≠ .clear))

/-- What a listener is handed in a step. -/
def handed (feed : Feed) (n : Nat) : Step → List Listener.Delivery
  | .receive m => if m = n then [(feed.receive n).1] else []
  | _ => []

def deliveries (feed : Feed) (n : Nat) : List Step → List Listener.Delivery
  | [] => []
  | step :: rest => feed.handed n step ++ (feed.after step).deliveries n rest

def Listener.Delivery.line? : Listener.Delivery → Option String
  | .line text => some text
  | .lagged _ | .nothing => none

/-- The lines that a listener hears in some steps, in order. -/
def heard (feed : Feed) (n : Nat) (steps : List Step) : List String :=
  (feed.deliveries n steps).filterMap Listener.Delivery.line?

/-- At no point there are more unread lines for a listener than are kept. -/
def KeepsUp (feed : Feed) (n : Nat) (steps : List Step) : Prop :=
  ∀ soFar, soFar <+: steps →
    (published soFar).length ≤ (feed.heard n soFar).length + unreadLimit

instance (feed : Feed) (n : Nat) (steps : List Step) : Decidable (feed.KeepsUp n steps) :=
  decidable_of_iff
    (∀ soFar ∈ steps.inits,
      (published soFar).length ≤ (feed.heard n soFar).length + unreadLimit)
    (by simp only [KeepsUp, List.mem_inits])

variable {feed : Feed} {n : Nat} {steps more : List Step} {step : Step}

/-! ### One step more -/

theorem afterAll_concat (feed : Feed) (steps : List Step) (step : Step) :
    feed.afterAll (steps ++ [step]) = (feed.afterAll steps).after step :=
  List.foldl_concat ..

theorem published_append (steps more : List Step) :
    published (steps ++ more) = published steps ++ published more :=
  List.filterMap_append

theorem sinceClear_concat (steps : List Step) (step : Step) :
    sinceClear (steps ++ [step]) =
      if step = .clear then [] else sinceClear steps ++ published [step] := by
  by_cases hstep : step = .clear
  · simp [sinceClear, hstep, published]
  · simp [sinceClear, hstep, published_append]

theorem deliveries_concat (feed : Feed) (n : Nat) (steps : List Step) (step : Step) :
    feed.deliveries n (steps ++ [step]) =
      feed.deliveries n steps ++ (feed.afterAll steps).handed n step := by
  induction steps generalizing feed with
  | nil => simp [deliveries, afterAll]
  | cons first rest ih =>
    simp only [List.cons_append, deliveries, ih, List.append_assoc]
    rfl

theorem heard_concat (feed : Feed) (n : Nat) (steps : List Step) (step : Step) :
    feed.heard n (steps ++ [step]) =
      feed.heard n steps ++
        ((feed.afterAll steps).handed n step).filterMap Listener.Delivery.line? := by
  simp only [heard, deliveries_concat, List.filterMap_append]

theorem KeepsUp.of_prefix (h : feed.KeepsUp n more) (hsteps : steps <+: more) :
    feed.KeepsUp n steps :=
  fun soFar hsoFar => h soFar (hsoFar.trans hsteps)

/-! ### The window -/

/-- The window holds the last lines since the feed was cleared. -/
theorem recent_afterAll (steps : List Step) :
    (empty.afterAll steps).recent = keepLast recentLimit (sinceClear steps) := by
  induction steps using List.reverseRecOn with
  | nil => rfl
  | append_singleton steps step ih =>
    rw [afterAll_concat, sinceClear_concat]
    cases step with
    | publish line =>
      show keepLast recentLimit ((empty.afterAll steps).recent ++ [line]) = _
      rw [ih, keepLast_keepLast_append]
      rfl
    | clear => rfl
    | attach | receive =>
      show (empty.afterAll steps).recent = keepLast recentLimit (sinceClear steps ++ [])
      rw [ih, List.append_nil]

theorem size_afterAll_le (steps : List Step) : (empty.afterAll steps).size ≤ recentLimit := by
  rw [size, recent_afterAll]
  exact length_keepLast_le ..

/-- The window is the end of all that was published. -/
theorem recent_suffix (steps : List Step) :
    (empty.afterAll steps).recent <:+ published steps := by
  have hsince : sinceClear steps <:+ published steps :=
    (List.rtakeWhile_suffix ..).filterMap _
  rw [recent_afterAll]
  exact (List.drop_suffix ..).trans hsince

/-! ### One listener -/

theorem listener_attach (feed : Feed) :
    feed.attach.2.listener feed.listeners.length = .start := by
  simp [attach, subscribe, listener]

theorem listener_attach_of_lt (hn : n < feed.listeners.length) :
    feed.attach.2.listener n = feed.listener n := by
  simp only [attach, subscribe, listener, List.getD_eq_getElem?_getD,
    List.getElem?_append_left hn]

theorem listener_publish (line : String) (hn : n < feed.listeners.length) :
    (feed.publish line).listener n = (feed.listener n).hear line := by
  simp [publish, listener, hn]

theorem listener_receive_self (hn : n < feed.listeners.length) :
    (feed.receive n).2.listener n = (feed.listener n).receive.2 := by
  simp [receive, listener, hn]

theorem listener_receive_of_ne {m : Nat} (h : m ≠ n) :
    (feed.receive m).2.listener n = feed.listener n := by
  simp [receive, listener, List.getElem?_set_ne h]

/-- Those who listen go on listening. -/
theorem length_listeners_le_after (feed : Feed) (step : Step) :
    feed.listeners.length ≤ (feed.after step).listeners.length := by
  cases step <;> simp [after, publish, clear, attach, subscribe, receive]

/-- Who asks as often as something waits, and once more, is handed what waits, and
then nothing. -/
theorem deliveries_replicate_receive (hn : n < feed.listeners.length) :
    feed.deliveries n (.replicate ((feed.listener n).waiting.length + 1) (.receive n)) =
      (feed.listener n).waiting ++ [.nothing] := by
  have hfirst : ∀ (feed : Feed) (more : List Step), feed.deliveries n (.receive n :: more) =
      (feed.listener n).receive.1 :: (feed.receive n).2.deliveries n more := by
    intro feed more
    simp [deliveries, handed, after, receive]
  generalize hwaiting : (feed.listener n).waiting = waiting
  induction waiting generalizing feed with
  | nil =>
    rw [List.length_nil, List.replicate_succ, hfirst]
    rw [Listener.waiting_eq] at hwaiting
    split at hwaiting
    next hnothing => rw [hnothing]; rfl
    next => cases hwaiting
  | cons delivery waiting ih =>
    rw [Listener.waiting_eq] at hwaiting
    split at hwaiting
    next => cases hwaiting
    next =>
      obtain ⟨hhead, htail⟩ := List.cons.inj hwaiting
      have hthere : n < (feed.receive n).2.listeners.length :=
        hn.trans_le (length_listeners_le_after feed (.receive n))
      rw [← listener_receive_self hn] at htail
      rw [List.length_cons, List.replicate_succ, hfirst, hhead, ih hthere htail]
      rfl

/-- There is room for one more line. -/
theorem Listener.hear_of_length_lt {unread : List String} (line : String)
    (h : unread.length < unreadLimit) :
    (⟨0, unread⟩ : Listener).hear line = ⟨0, unread ++ [line]⟩ := by
  have hroom : (unread ++ [line]).length ≤ unreadLimit := by
    rw [List.length_append]
    exact h
  simp only [hear, keepLast_of_length_le hroom, Nat.sub_eq_zero_of_le hroom, Nat.add_zero]

/-- A listener has heard, or will hear next, all that was published: it has lost
nothing, and was never told that it had. -/
structure Follows (feed : Feed) (n : Nat) (steps : List Step) (unread : List String) : Prop where
  listens : n < (feed.afterAll steps).listeners.length
  has : (feed.afterAll steps).listener n = ⟨0, unread⟩
  all : published steps = feed.heard n steps ++ unread
  never_lagged : ∀ count, .lagged count ∉ feed.deliveries n steps

/-- A step that hands a listener nothing, and has no line for it. -/
theorem Follows.stay {unread : List String} (h : feed.Follows n steps unread)
    (hhanded : (feed.afterAll steps).handed n step = [])
    (hpublished : step.published? = none)
    (hlistener : ((feed.afterAll steps).after step).listener n = (feed.afterAll steps).listener n) :
    feed.Follows n (steps ++ [step]) unread where
  listens := by
    rw [afterAll_concat]
    exact h.listens.trans_le (length_listeners_le_after ..)
  has := by rw [afterAll_concat, hlistener, h.has]
  all := by
    rw [published_append, heard_concat, hhanded, h.all]
    simp [published, hpublished]
  never_lagged := by
    rw [deliveries_concat, hhanded, List.append_nil]
    exact h.never_lagged

theorem Follows.publish {unread : List String} (h : feed.Follows n steps unread) (line : String)
    (hkeeps : feed.KeepsUp n (steps ++ [.publish line])) :
    feed.Follows n (steps ++ [.publish line]) (unread ++ [line]) := by
  have hhanded : (feed.afterAll steps).handed n (.publish line) = [] := rfl
  have hall : published (steps ++ [.publish line]) =
      feed.heard n (steps ++ [.publish line]) ++ (unread ++ [line]) := by
    rw [published_append, heard_concat, hhanded, h.all]
    simp [published, Step.published?]
  have hroom : unread.length < unreadLimit := by
    have hle := hkeeps _ List.prefix_rfl
    rw [hall] at hle
    simp only [List.length_append, List.length_singleton] at hle
    omega
  constructor
  case listens =>
    rw [afterAll_concat]
    exact h.listens.trans_le (length_listeners_le_after ..)
  case has =>
    rw [afterAll_concat]
    show ((feed.afterAll steps).publish line).listener n = _
    rw [listener_publish line h.listens, h.has, Listener.hear_of_length_lt line hroom]
  case all => exact hall
  case never_lagged =>
    rw [deliveries_concat, hhanded, List.append_nil]
    exact h.never_lagged

/-- What is handed over is the first line that is unread. -/
theorem Follows.receive {unread : List String} (h : feed.Follows n steps unread) :
    feed.Follows n (steps ++ [.receive n]) unread.tail := by
  have hlistener : ((feed.afterAll steps).after (.receive n)).listener n =
      (⟨0, unread⟩ : Listener).receive.2 := by
    show ((feed.afterAll steps).receive n).2.listener n = _
    rw [listener_receive_self h.listens, h.has]
  have hhanded : (feed.afterAll steps).handed n (.receive n) =
      [(⟨0, unread⟩ : Listener).receive.1] := by
    show (if n = n then [((feed.afterAll steps).listener n).receive.1] else []) = _
    rw [if_pos rfl, h.has]
  constructor
  case listens =>
    rw [afterAll_concat]
    exact h.listens.trans_le (length_listeners_le_after ..)
  case has =>
    rw [afterAll_concat, hlistener]
    cases unread <;> rfl
  case all =>
    rw [published_append, heard_concat, hhanded, h.all]
    cases unread with
    | nil => rfl
    | cons => simp [published, Step.published?, Listener.receive, Listener.Delivery.line?]
  case never_lagged =>
    intro count hcount
    rw [deliveries_concat, hhanded, List.mem_append] at hcount
    refine hcount.elim (h.never_lagged count) fun hlast => ?_
    cases unread <;> simp [Listener.receive] at hlast

/-- A listener that keeps up follows, whatever else is done with the feed. -/
theorem Follows.of_keepsUp (hn : n < feed.listeners.length) (hstart : feed.listener n = .start)
    (hkeeps : feed.KeepsUp n steps) : ∃ unread, feed.Follows n steps unread := by
  induction steps using List.reverseRecOn with
  | nil => exact ⟨[], hn, hstart, rfl, by simp [deliveries]⟩
  | append_singleton steps step ih =>
    obtain ⟨unread, h⟩ := ih (hkeeps.of_prefix (List.prefix_append ..))
    cases step with
    | publish line => exact ⟨_, h.publish line hkeeps⟩
    | clear => exact ⟨_, h.stay rfl rfl rfl⟩
    | attach => exact ⟨_, h.stay rfl rfl (listener_attach_of_lt h.listens)⟩
    | receive m =>
      by_cases hm : m = n
      · subst hm
        exact ⟨_, h.receive⟩
      · exact ⟨_, h.stay (if_neg hm) rfl (listener_receive_of_ne hm)⟩

/-! ### Someone who joins -/

/-- What someone hears who joins a feed: `before` is what has been done with the
feed until then, and `later` what is done with it from there on. At every moment
the window holds the last lines since the feed was cleared, and whoever joins is
handed it. What is published later is heard or will be handed over to who asks
again, in this order; and together with the window it is the end of all that was
published. -/
structure HearsAll (before later : List Step) : Prop where
  window : ∀ soFar, soFar <+: before ++ .attach :: later →
    (empty.afterAll soFar).size ≤ recentLimit ∧
    (empty.afterAll soFar).recent = keepLast recentLimit (sinceClear soFar)
  replay : (empty.afterAll before).attach.1 = keepLast recentLimit (sinceClear before)
  live : let feed := (empty.afterAll before).attach
    let n := (empty.afterAll before).listeners.length
    ∃ older unread,
      published later = feed.2.heard n later ++ unread ∧
      ((feed.2.afterAll later).listener n).waiting = unread.map .line ∧
      (feed.2.afterAll later).deliveries n (.replicate (unread.length + 1) (.receive n)) =
        unread.map .line ++ [.nothing] ∧
      (∀ count, .lagged count ∉ feed.2.deliveries n later) ∧
      published before = older ++ feed.1 ∧
      published (before ++ .attach :: later) =
        older ++ feed.1 ++ feed.2.heard n later ++ unread

/-- Someone who joins and keeps up misses nothing and hears nothing twice. -/
theorem hearsAll_of_keepsUp (before later : List Step)
    (hkeeps : (empty.afterAll before).attach.2.KeepsUp
      (empty.afterAll before).listeners.length later) :
    HearsAll before later := by
  have hjoined : (empty.afterAll before).listeners.length <
      (empty.afterAll before).attach.2.listeners.length := by
    simp [attach, subscribe]
  obtain ⟨unread, h⟩ := Follows.of_keepsUp hjoined (listener_attach _) hkeeps
  obtain ⟨older, holder⟩ := recent_suffix before
  have hwaiting : (((empty.afterAll before).attach.2.afterAll later).listener
      (empty.afterAll before).listeners.length).waiting = unread.map .line := by
    simp [h.has, Listener.waiting]
  have hhanded := deliveries_replicate_receive h.listens
  rw [hwaiting, List.length_map] at hhanded
  refine ⟨fun soFar _ => ⟨size_afterAll_le _, recent_afterAll _⟩, recent_afterAll _,
    older, unread, h.all, hwaiting, hhanded, h.never_lagged, holder.symm, ?_⟩
  have hcons : published (.attach :: later) = published later := rfl
  rw [published_append, hcons, h.all, ← holder]
  simp only [attach, List.append_assoc]

/-- Twenty-three lines, of which the first is forgotten and two more fall out of
the window; then someone joins beside one who listens already, and lines, a
clearing and the reading of both go on in turns. -/
theorem hearsAll_twenty_three :
    let before : List Step :=
      [.publish "0", .clear, .attach] ++
        (List.range 22).map (fun k => .publish (toString k)) ++ [.receive 0]
    let later : List Step :=
      [.publish "a", .receive 1, .clear, .publish "b", .attach, .receive 0, .publish "c",
        .receive 1]
    (empty.afterAll before).attach.2.KeepsUp (empty.afterAll before).listeners.length later ∧
      HearsAll before later ∧
      (empty.afterAll before).attach.2.heard 1 later = ["a", "b"] :=
  ⟨by decide +kernel, hearsAll_of_keepsUp _ _ (by decide +kernel), by decide +kernel⟩

end Feed

end BlockSketch
