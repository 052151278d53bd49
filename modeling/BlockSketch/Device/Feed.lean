/-!
The line feed.  Lines that the board sends go to everyone who listens.  Someone
who joins late gets the most recent lines at once and every later one as it
comes, so that no line is missed and none comes twice.  A listener that does
not keep up loses the oldest lines it has not read, and is told how many.
-/

namespace BlockSketch

def keepLast {α : Type} (n : Nat) (items : List α) : List α :=
  items.drop (items.length - n)

theorem length_keepLast_le {α : Type} (n : Nat) (items : List α) :
    (keepLast n items).length ≤ n := by
  simp [keepLast]; omega

theorem keepLast_of_length_le {α : Type} {n : Nat} {items : List α} (h : items.length ≤ n) :
    keepLast n items = items := by
  simp [keepLast, Nat.sub_eq_zero_of_le h]

/-- What falls out of a window does not come back into it. -/
theorem keepLast_keepLast_append {α : Type} (n : Nat) (items more : List α) :
    keepLast n (keepLast n items ++ more) = keepLast n (items ++ more) := by
  have hcut : items.length - n ≤ items.length := Nat.sub_le _ _
  simp only [keepLast]
  rw [← List.drop_append_of_le_length hcut, List.drop_drop]
  congr 1
  simp only [List.length_append, List.length_drop]
  omega

namespace Feed

/-- How many lines are kept for those who join late. -/
def recentLimit : Nat := 20

/-- How many unread lines are kept for a listener. -/
def unreadLimit : Nat := 256

/-- Someone who listens, with the number of lines that were lost since the last
reading, and those that were not read. -/
structure Listener where
  lost : Nat
  unread : List String
deriving DecidableEq, Repr, Inhabited

namespace Listener

def start : Listener := ⟨0, []⟩

def hear (l : Listener) (line : String) : Listener :=
  let unread := l.unread ++ [line]
  ⟨l.lost + (unread.length - unreadLimit), keepLast unreadLimit unread⟩

/-- What a listener is handed when it asks for something; it lags if lines were
lost before the next one. -/
inductive Delivery
  | line (text : String)
  | lagged (count : Nat)
  | nothing
deriving DecidableEq, Repr, Inhabited

/-- A listener asks for the next line. If it has lost some, it is told so first. -/
def receive (l : Listener) : Delivery × Listener :=
  if l.lost ≠ 0 then (.lagged l.lost, { l with lost := 0 })
  else
    match l.unread with
    | [] => (.nothing, l)
    | line :: rest => (.line line, { l with unread := rest })

/-- All that a listener will be handed if nothing more is said. -/
def waiting (l : Listener) : List Delivery :=
  (if l.lost ≠ 0 then [.lagged l.lost] else []) ++ l.unread.map .line

/-- What waits for a listener is what it is handed, one after the other. -/
theorem waiting_eq (l : Listener) :
    l.waiting = if l.receive.1 = .nothing then [] else l.receive.1 :: l.receive.2.waiting := by
  obtain ⟨lost, unread⟩ := l
  by_cases hlost : lost = 0
  · cases unread <;> simp [waiting, receive, hlost]
  · simp [waiting, receive, hlost]

end Listener

end Feed

/-- A line feed: the lines for those who join late, the oldest first, and everyone
who listens, in the order of joining. -/
structure Feed where
  recent : List String
  listeners : List Feed.Listener
deriving DecidableEq, Repr, Inhabited

namespace Feed

def empty : Feed := ⟨[], []⟩

def size (feed : Feed) : Nat :=
  feed.recent.length

def publish (feed : Feed) (line : String) : Feed :=
  ⟨keepLast recentLimit (feed.recent ++ [line]), feed.listeners.map fun l => l.hear line⟩

def publishAll (feed : Feed) (lines : List String) : Feed :=
  lines.foldl publish feed

def subscribe (feed : Feed) : Feed :=
  { feed with listeners := feed.listeners ++ [.start] }

def clear (feed : Feed) : Feed :=
  { feed with recent := [] }

def listener (feed : Feed) (n : Nat) : Listener :=
  feed.listeners.getD n .start

/-- Someone joins, gets the recent lines at once and listens from there on. -/
def attach (feed : Feed) : List String × Feed :=
  (feed.recent, feed.subscribe)

def receive (feed : Feed) (n : Nat) : Listener.Delivery × Feed :=
  let (delivery, l) := (feed.listener n).receive
  (delivery, { feed with listeners := feed.listeners.set n l })

/-- A listener reads everything that it has. -/
def drain (feed : Feed) (n : Nat) : Feed :=
  { feed with listeners := feed.listeners.set n .start }

end Feed

end BlockSketch
